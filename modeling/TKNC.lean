import TKNC.ApiKey.ProxyTarget
import TKNC.Chain.BlockProof
import TKNC.Chain.LastCommonAncestor
import TKNC.Difficulty.CompactTarget
import TKNC.Difficulty.Retarget
import TKNC.Escrow.FreeAdmission
import TKNC.Escrow.HonestPayer
import TKNC.Escrow.Interleaving
import TKNC.Escrow.MinerCredit
import TKNC.Escrow.PayAsYouGo
import TKNC.Escrow.Pricing
import TKNC.Escrow.Quota
import TKNC.Escrow.Received
import TKNC.Escrow.RecordChoice
import TKNC.Escrow.Recovery
import TKNC.Escrow.Snapshot
import TKNC.Escrow.SyncOrder
import TKNC.Escrow.SyncRace
import TKNC.Escrow.UnpaidService
import TKNC.Gateway.Bill
import TKNC.Gateway.Charge
import TKNC.Gateway.Chunked
import TKNC.Gateway.MessagesOnly
import TKNC.Gateway.Release
import TKNC.Gateway.SkipBilling
import TKNC.Gateway.TokenCount
import TKNC.Index.BlockDisconnect
import TKNC.Miner.LiveMiners
import TKNC.Miner.ModeSwitcher
import TKNC.Miner.ProfileAuth
import TKNC.Miner.StreamFilter
import TKNC.Miner.WebSocketFrames
import TKNC.Net.ConnectionThreads
import TKNC.Net.DiscoveryStream
import TKNC.Net.EndpointSelection
import TKNC.Net.EntryPoints
import TKNC.Net.HandshakeRates
import TKNC.Net.HeadersSync
import TKNC.Net.MessageThread
import TKNC.Net.MinerListing
import TKNC.Net.MinerStream
import TKNC.Net.NearestNodes
import TKNC.Net.RateLimit
import TKNC.Net.RelayBody
import TKNC.Net.SelfDeadlock
import TKNC.Net.WireBounds
import TKNC.Net.WsProxy
import TKNC.Node.BlockTime
import TKNC.Node.PublicAddress
import TKNC.Validation.CoinsCache
