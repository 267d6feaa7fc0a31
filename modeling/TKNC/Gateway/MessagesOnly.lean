import TKNC.Gateway.FieldLookup
import TKNC.Gateway.Prompt
import TKNC.Lib.PrefixCode

/-!
# MessagesOnly — which parts of a request body reach the model

`extractPromptFromMessages` is meant to render the messages of a request and nothing else of it.
Its scan starts at the first bracket behind the first key that looks like it.  It finds the objects
of the array one by one, but it does not stop at the end of the array, so objects of later members
are rendered as well.
-/

namespace TKNC.Gateway

open Lib.JsonText Lib.Numeral Lib.PrefixCode Lib.TextSearch ObjectScan List

/-! ## Request bodies -/

structure Message where
  before : Blank
  blank : Blank
  members : Members
  after : Blank
  role : Field
  roleLetters : Letters
  role_field : members.field (ascii "role") = some role
  role_string : role.value = .string roleLetters
  role_plain : ∀ l ∈ roleLetters, l.isUnicode = false
  content : Field
  contentLetters : Letters
  content_field : members.field (ascii "content") = some content
  content_string : content.value = .string contentLetters
  content_plain : ∀ l ∈ contentLetters, l.isUnicode = false

def Message.object (m : Message) : Document where
  leading := noBlank
  blank := m.blank
  members := m.members
  trailing := noBlank

def Message.chatML (m : Message) : Bytes :=
  Gateway.chatML (stringValue m.roleLetters) (stringValue m.contentLetters)

def elementsOf : List Message → Elements
  | [] => .noElement
  | m :: messages => .element m.before (.object m.blank m.members) m.after (elementsOf messages)

structure MessagesBody where
  document : Document
  field : Field
  blank : Blank
  messages : List Message
  member : document.members.field (ascii "messages") = some field
  array : field.value = .array blank (elementsOf messages)

def MessagesBody.rendering (r : MessagesBody) : Bytes :=
  if r.messages.flatMap Message.chatML = [] then []
  else r.messages.flatMap Message.chatML ++ assistantTurn

def MessagesBody.textBehindArray (r : MessagesBody) : Bytes :=
  r.field.rest ++ 125 :: r.document.trailing.1

def MessagesBody.textInArray (r : MessagesBody) : Bytes :=
  r.blank.1 ++ ((elementsOf r.messages).textFrom [] ++ [93]) ++ r.textBehindArray

/-! ## Fields of a message -/

def roleReader : StringReader where
  blank := isBlank
  text := roleText
  letter := roleLetter
  blank_value := fun c h => by
    simp only [isBlankOrBreak, Bool.or_eq_false_iff] at h
    exact h.1.1
  text_quote := roleText_quote
  text_letter := roleText_letter

def contentReader : StringReader where
  blank := isBlankOrBreak
  text := contentText
  letter := contentLetter
  blank_value := fun _ h => h
  text_quote := contentText_quote
  text_letter := contentText_letter

/-- The search for the colon starts behind the key, which makes no difference for a key without
one. -/
theorem messageField_eq {key : Bytes} (hkey : colon ∉ quoted key) (r : StringReader)
    (msgObj : Bytes) :
    messageField key r.blank r.text msgObj = (valueOf msgObj key).elim [] r.readAt := by
  rw [messageField, valueOf_eq]
  cases hfind : find (quoted key) msgObj with
  | none => rfl
  | some s =>
    obtain ⟨v, rfl⟩ : ∃ v, s = quoted key ++ v := by
      obtain ⟨_, v, _, hs, _⟩ := find_eq_some_iff.1 hfind
      exact ⟨v, hs⟩
    have hdrop : List.drop (quoted key).length (quoted key ++ v) = v := drop_left
    have hcolon : find [colon] (quoted key ++ v) = find [colon] v :=
      find_append_of_not_mem hkey [] v
    rw [Option.bind_some, hcolon]
    dsimp only
    rw [hdrop]
    cases find [colon] v with
    | none => rfl
    | some s =>
      rw [Option.map_some, Option.elim_some, StringReader.readAt]
      dsimp only
      cases (s.drop 1).dropWhile r.blank <;> rfl

/-! ## Messages as they are read -/

def speaker (role : Bytes) : Bytes :=
  if role = ascii "system" then ascii "system"
  else if role = ascii "assistant" then ascii "assistant"
  else ascii "user"

theorem chatML_of_ne_nil (role : Bytes) {content : Bytes} (h : content ≠ []) :
    chatML role content = ascii "<|im_start|>" ++
      (speaker role ++ (ascii "\n" ++ (content ++ ascii "<|im_end|>\n"))) := by
  simp only [chatML, if_neg h, speaker, append_assoc]

theorem equalIff_speaker (role role' : Bytes) :
    EqualIff (speaker role) (speaker role') (speaker role = speaker role') := by
  have hmem (role : Bytes) :
      speaker role ∈ [ascii "system", ascii "assistant", ascii "user"] := by
    unfold speaker
    split_ifs <;> simp
  have hne : ∀ name ∈ [ascii "system", ascii "assistant", ascii "user"], name ≠ [] := by decide
  -- the names differ in their first letters
  have hfirst : ∀ name ∈ [ascii "system", ascii "assistant", ascii "user"],
      ∀ name' ∈ [ascii "system", ascii "assistant", ascii "user"],
        name.head? = name'.head? → name = name' := by
    decide
  by_cases hspeaker : speaker role = speaker role'
  · exact Or.inl ⟨hspeaker, hspeaker⟩
  obtain ⟨b, u, hu⟩ := exists_cons_of_ne_nil (hne _ (hmem role))
  obtain ⟨b', u', hu'⟩ := exists_cons_of_ne_nil (hne _ (hmem role'))
  refine Or.inr ⟨⟨[], b, b', u, u', hu, hu', fun hsame => hspeaker ?_⟩, hspeaker⟩
  refine hfirst _ (hmem role) _ (hmem role') ?_
  rw [hu, hu', hsame]
  rfl

/-- A letter that cannot be read leaves a backslash where the content has another byte. -/
theorem equalIff_contentLetter {l : Letter} (h : l.isUnicode = false) :
    EqualIff (contentLetter l) [l.byte] (contentLetter l = [l.byte]) := by
  have hclash {b : UInt8} (u : Bytes) (hne : b ≠ l.byte) : Clash (b :: u) [l.byte] :=
    ⟨[], b, l.byte, u, [], rfl, rfl, hne⟩
  cases l with
  | plain b hb => exact Or.inl ⟨rfl, rfl⟩
  | unicode digits hdigits => cases h
  | escape e =>
    cases e with
    | slash => exact Or.inr ⟨hclash _ (by decide), by decide⟩
    | backspace => exact Or.inr ⟨hclash _ (by decide), by decide⟩
    | formFeed => exact Or.inr ⟨hclash _ (by decide), by decide⟩
    | quote => exact Or.inl ⟨rfl, rfl⟩
    | backslash => exact Or.inl ⟨rfl, rfl⟩
    | lineFeed => exact Or.inl ⟨rfl, rfl⟩
    | carriageReturn => exact Or.inl ⟨rfl, rfl⟩
    | tab => exact Or.inl ⟨rfl, rfl⟩

theorem equalIff_content {s : Letters} (h : ∀ l ∈ s, l.isUnicode = false) :
    EqualIff (s.flatMap contentLetter) (stringValue s)
      (s.flatMap contentLetter = stringValue s) := by
  rw [stringValue_eq_map h, map_eq_flatMap]
  exact (EqualIff.flatMap fun l hl => equalIff_contentLetter (h l hl)).eq

def endMark : Bytes :=
  ascii "<|im_end|>\n"

theorem equalIff_marked {u v : Bytes} (hu : ¬endMark <:+: u) (hv : ¬endMark <:+: v) :
    EqualIff (u ++ endMark) (v ++ endMark) (u ++ endMark = v ++ endMark) := by
  have hfind {u : Bytes} (hu : ¬endMark <:+: u) (x : Bytes) :
      find endMark (u ++ (endMark ++ x)) = some (endMark ++ x) :=
    find_eq_some_iff.2 ⟨u, x, rfl, rfl, .of_next (by decide) hu _⟩
  have hsame {u v : Bytes} (hu : ¬endMark <:+: u) (hv : ¬endMark <:+: v)
      (h : u ++ endMark <+: v ++ endMark) : u ++ endMark = v ++ endMark := by
    obtain ⟨x, hx⟩ := h
    have hv := hfind hv []
    rw [append_nil, ← hx, append_assoc, hfind hu x] at hv
    rw [← hx, append_assoc, Option.some.inj hv]
  exact EqualIff.of_prefix (hsame hu hv) fun h => (hsame hv hu h).symm

/-- What stands where the reader lands in the message. -/
def Message.Reads (m : Message) (r : StringReader) (key text : Bytes) : Prop :=
  ∃ place, LandsAt m.object key place ∧ place.elim [] r.readPlace = text

theorem Message.reads_iff (m : Message) (r : StringReader) {key : Bytes} (hkey : colon ∉ quoted key)
    (text : Bytes) :
    m.Reads r key text ↔ messageField key r.blank r.text m.object.text = text := by
  have hread {place : Option Place} (h : LandsAt m.object key place) :
      messageField key r.blank r.text m.object.text = place.elim [] r.readPlace := by
    rw [messageField_eq hkey, valueOf_of_landsAt h]
    cases place with
    | none => rfl
    | some place => exact r.readAt_place place
  constructor
  · rintro ⟨place, hlands, rfl⟩
    exact hread hlands
  · rintro rfl
    obtain ⟨place, hlands⟩ := exists_landsAt m.object key
    exact ⟨place, hlands, (hread hlands).symm⟩

/-- A message is rendered right: its content is read, and if it has one, a role of the same
speaker. -/
def Message.Readable (m : Message) : Prop :=
  m.Reads contentReader (ascii "content") (stringValue m.contentLetters) ∧
    (m.contentLetters ≠ [] → ∃ role, m.Reads roleReader (ascii "role") role ∧
      speaker role = speaker (stringValue m.roleLetters))

theorem Message.readable_iff (m : Message) :
    m.Readable ↔ messageContent m.object.text = stringValue m.contentLetters ∧
      (m.contentLetters ≠ [] →
        speaker (messageRole m.object.text) = speaker (stringValue m.roleLetters)) := by
  have hcontent := m.reads_iff contentReader (by decide : colon ∉ quoted (ascii "content"))
  have hrole := m.reads_iff roleReader (by decide : colon ∉ quoted (ascii "role"))
  rw [Readable, hcontent]
  simp only [hrole, exists_eq_left']
  rfl

/-- A wrong content of the message shows.  Either the reader lands at a string with the letters of
the content, or both contents are without the mark that ends a message, and empty together. -/
def Message.Tells (m : Message) : Prop :=
  (∃ f, LandsAt m.object (ascii "content") (some (.value f)) ∧
      f.value = .string m.contentLetters) ∨
    ∃ content, m.Reads contentReader (ascii "content") content ∧
      (content = [] ↔ m.contentLetters = []) ∧ ¬endMark <:+: content ∧
      ¬endMark <:+: stringValue m.contentLetters

theorem Message.stringValue_eq_nil_iff (m : Message) :
    stringValue m.contentLetters = [] ↔ m.contentLetters = [] := by
  rw [stringValue_eq_map m.content_plain, map_eq_nil_iff]

theorem Message.equalIff_content {m : Message} (h : m.Tells) :
    (messageContent m.object.text = [] ↔ m.contentLetters = []) ∧
      EqualIff (messageContent m.object.text ++ endMark) (stringValue m.contentLetters ++ endMark)
        (messageContent m.object.text ++ endMark = stringValue m.contentLetters ++ endMark) := by
  have hread := m.reads_iff contentReader (by decide : colon ∉ quoted (ascii "content"))
  rcases h with ⟨f, hlands, hvalue⟩ | ⟨content, hreads, hnil, hmark, hmark'⟩
  · have hcontent : messageContent m.object.text = m.contentLetters.flatMap contentLetter := by
      refine (hread _).1 ⟨_, hlands, ?_⟩
      rw [Option.elim_some, StringReader.readPlace, hvalue]
      exact if_pos (all_eq_true.2 f.between.2)
    have hequal := Gateway.equalIff_content m.content_plain
    rw [hcontent, hequal.eq_nil_iff, m.stringValue_eq_nil_iff]
    exact ⟨Iff.rfl, (hequal.append (EqualIff.refl endMark)).eq⟩
  · obtain rfl := (hread content).1 hreads
    exact ⟨hnil, equalIff_marked hmark hmark'⟩

def Message.readChatML (m : Message) : Bytes :=
  Gateway.chatML (messageRole m.object.text) (messageContent m.object.text)

theorem Message.chatML_eq_nil_iff (m : Message) : m.chatML = [] ↔ m.contentLetters = [] := by
  rw [Message.chatML, Gateway.chatML_eq_nil_iff, m.stringValue_eq_nil_iff]

theorem Message.readChatML_of_readable {m : Message} (h : m.Readable) :
    m.readChatML = m.chatML := by
  obtain ⟨hcontent, hrole⟩ := m.readable_iff.1 h
  rw [readChatML, Message.chatML, hcontent]
  by_cases hnil : m.contentLetters = []
  · rw [hnil]
    rfl
  have hvalue : stringValue m.contentLetters ≠ [] := mt m.stringValue_eq_nil_iff.1 hnil
  rw [chatML_of_ne_nil _ hvalue, chatML_of_ne_nil _ hvalue, hrole hnil]

theorem Message.equalIff_chatML {m : Message} (h : m.Tells) :
    EqualIff m.readChatML m.chatML m.Readable := by
  obtain ⟨hnil, hequal⟩ := m.equalIff_content h
  rw [readable_iff]
  by_cases hempty : m.contentLetters = []
  · have hcontent := hnil.2 hempty
    rw [readChatML, Message.chatML, hcontent, hempty]
    exact Or.inl ⟨rfl, rfl, fun hne => absurd rfl hne⟩
  have hvalue : stringValue m.contentLetters ≠ [] := mt m.stringValue_eq_nil_iff.1 hempty
  -- part by part: the marks are the same on both sides
  have hparts := (equalIff_speaker (messageRole m.object.text) (stringValue m.roleLetters)).append
    ((EqualIff.refl (ascii "\n")).append hequal)
  rw [readChatML, Message.chatML, chatML_of_ne_nil _ hvalue,
    chatML_of_ne_nil _ (mt hnil.1 hempty)]
  have hall := (EqualIff.refl (ascii "<|im_start|>")).append hparts
  rw [append_left_inj, true_and, true_and, and_comm] at hall
  rw [imp_iff_right hempty]
  exact hall

/-! ## The scan -/

/-- Inside an object, the scan comes out of the text at the depth at which it went in. -/
def Balanced (u : Bytes) : Prop :=
  ∀ depth seen objects, 0 < depth →
    u.foldl ObjectScan.step ⟨.code depth seen, objects⟩ = ⟨.code depth (seen ++ u), objects⟩

theorem Balanced.append {u v : Bytes} (hu : Balanced u) (hv : Balanced v) : Balanced (u ++ v) := by
  intro depth seen objects hdepth
  rw [foldl_append, hu depth seen objects hdepth, hv depth _ objects hdepth,
    append_assoc]

theorem balanced_of_plain {u : Bytes} (h : ∀ b ∈ u, b ≠ 123 ∧ b ≠ 125 ∧ b ≠ quote) :
    Balanced u := by
  intro depth seen objects _
  induction u generalizing seen with
  | nil => rw [append_nil, foldl_nil]
  | cons c u ih =>
    rw [forall_mem_cons] at h
    have hstep : step ⟨.code depth seen, objects⟩ c =
        ⟨.code depth (seen ++ [c]), objects⟩ := by
      simp only [step, if_neg h.1.1, if_neg h.1.2.1, if_neg h.1.2.2]
    rw [foldl_cons, hstep, ih h.2, append_assoc, singleton_append]

theorem balanced_nil : Balanced [] :=
  balanced_of_plain (forall_mem_nil _)

theorem balanced_blank (blank : Blank) : Balanced blank.1 := by
  refine balanced_of_plain fun b hb => ?_
  have hwhite := blank.2 b hb
  refine ⟨?_, ?_, ?_⟩ <;>
  · rintro rfl
    cases hwhite

theorem balanced_string (s : Letters) : Balanced (stringText s) := by
  intro depth seen objects _
  have hopen : step ⟨.code depth seen, objects⟩ 34 =
      ⟨.string depth (seen ++ [34]), objects⟩ := rfl
  have hclose (seen : Bytes) : [34].foldl step ⟨.string depth seen, objects⟩ =
      ⟨.code depth (seen ++ [34]), objects⟩ := rfl
  rw [stringText, foldl_cons, hopen, foldl_append, foldl_step_letters, hclose]
  simp

theorem Balanced.braces {u : Bytes} (h : Balanced u) : Balanced (123 :: (u ++ [125])) := by
  intro depth seen objects hdepth
  have hopen : step ⟨.code depth seen, objects⟩ 123 =
      ⟨.code (depth + 1) (seen ++ [123]), objects⟩ := rfl
  have hclose (seen : Bytes) : [125].foldl step ⟨.code (depth + 1) seen, objects⟩ =
      ⟨.code depth (seen ++ [125]), objects⟩ := by
    have hinner : depth + 1 ≠ 1 := by omega
    simp only [foldl_cons, foldl_nil, step, if_neg hinner]
    rfl
  rw [foldl_cons, hopen, foldl_append, h _ _ _ (Nat.succ_pos depth), hclose]
  simp

theorem balanced_tree {p : Part} (t : Tree p) {sep : Bytes} (hsep : Balanced sep) :
    Balanced (t.textFrom sep) := by
  have hcomma : Balanced [44] := balanced_of_plain (by simp [quote])
  have hnull : Balanced (ascii "null") := balanced_of_plain (by simp [ascii, quote])
  have htrue : Balanced (ascii "true") := balanced_of_plain (by simp [ascii, quote])
  have hfalse : Balanced (ascii "false") := balanced_of_plain (by simp [ascii, quote])
  have hbyte {b : UInt8} {u : Bytes} (hb : b ≠ 123 ∧ b ≠ 125 ∧ b ≠ quote) (hu : Balanced u) :
      Balanced (b :: u) := by
    have hsingle : Balanced [b] := balanced_of_plain (by simpa using hb)
    exact hsingle.append hu
  -- one case per constructor; the separator in front of a part is balanced by hypothesis
  induction t generalizing sep with
  | null => exact hnull
  | bool b =>
    cases b with
    | false => exact hfalse
    | true => exact htrue
  | number n =>
    refine balanced_of_plain fun b hb => ?_
    have hnumber := n.mem_text hb
    refine ⟨?_, ?_, ?_⟩ <;>
    · rintro rfl
      revert hnumber
      decide
  | string s => exact balanced_string s
  | array blank es ih =>
    have hend : Balanced [93] := balanced_of_plain (by simp [quote])
    exact hbyte (by decide) ((balanced_blank blank).append ((ih balanced_nil).append hend))
  | object blank ms ih =>
    have hinner := ((balanced_blank blank).append (ih balanced_nil)).braces
    rw [append_assoc] at hinner
    exact hinner
  | noElement => exact balanced_nil
  | element before v after es ihv ihes =>
    exact hsep.append ((balanced_blank before).append ((ihv balanced_nil).append
      ((balanced_blank after).append (ihes hcomma))))
  | noMember => exact balanced_nil
  | member before key behind between v after ms ihv ihms =>
    exact hsep.append ((balanced_blank before).append ((balanced_string key).append
      ((balanced_blank behind).append (hbyte (by decide) ((balanced_blank between).append
        ((ihv balanced_nil).append ((balanced_blank after).append (ihms hcomma))))))))

theorem foldl_step_object {u : Bytes} (h : Balanced u) (objects : List Bytes) :
    (123 :: (u ++ [125])).foldl step ⟨.seeking, objects⟩ =
      ⟨.seeking, objects ++ [123 :: (u ++ [125])]⟩ := by
  have hopen : step ⟨.seeking, objects⟩ 123 = ⟨.code 1 [123], objects⟩ := rfl
  rw [foldl_cons, hopen, foldl_append, h 1 [123] objects Nat.one_pos]
  rfl

theorem text_object (m : Message) :
    m.object.text = 123 :: (m.blank.1 ++ m.members.textFrom [] ++ [125]) := by
  simp [Document.text, Message.object, noBlank, Tree.text, Tree.textFrom]

theorem foldl_step_elements (messages : List Message) {sep : Bytes} (hsep : 123 ∉ sep)
    (objects : List Bytes) :
    ((elementsOf messages).textFrom sep).foldl step ⟨.seeking, objects⟩ =
      ⟨.seeking, objects ++ messages.map fun m => m.object.text⟩ := by
  induction messages generalizing sep objects with
  | nil =>
    rw [map_nil, append_nil]
    rfl
  | cons m messages ih =>
    have hobject : Tree.textFrom [] (.object m.blank m.members) = m.object.text := by
      rw [text_object, Tree.textFrom, append_assoc]
    have hinner := (balanced_blank m.blank).append (balanced_tree m.members balanced_nil)
    -- separator, blank, object, blank: only the object has a brace
    rw [elementsOf, Tree.textFrom, hobject, foldl_append, foldl_step_seeking hsep,
      foldl_append, foldl_step_seeking (not_mem_blank m.before (by decide)),
      foldl_append, text_object, foldl_step_object hinner, foldl_append,
      foldl_step_seeking (not_mem_blank m.after (by decide)), ih (by decide), ← text_object,
      append_assoc]
    rfl

theorem objects_foldl_step (u : Bytes) (state : ScanState) (found objects : List Bytes) :
    (u.foldl step ⟨state, found ++ objects⟩).objects =
      found ++ (u.foldl step ⟨state, objects⟩).objects := by
  induction u generalizing state objects with
  | nil => rfl
  | cons c u ih =>
    have hstep : step ⟨state, found ++ objects⟩ c =
        ⟨(step ⟨state, objects⟩ c).state,
          found ++ (step ⟨state, objects⟩ c).objects⟩ := by
      cases state <;> simp only [step] <;> split_ifs <;> simp
    rw [foldl_cons, foldl_cons, hstep, ih]

/-- The scan comes to the array between two objects, and no object that it found before has a
content. -/
def MessagesBody.Reached (r : MessagesBody) : Prop :=
  ∃ before objects, Lands 91 r.document.text (ascii "messages") (before ++ r.textInArray) ∧
    before.foldl step ⟨.seeking, []⟩ = ⟨.seeking, objects⟩ ∧
    ∀ msgObj ∈ objects, messageContent msgObj = []

theorem messageObjects_textInArray (r : MessagesBody) {before : Bytes} {objects : List Bytes}
    (h : before.foldl step ⟨.seeking, []⟩ = ⟨.seeking, objects⟩) :
    messageObjects (before ++ r.textInArray) =
      objects ++ (r.messages.map fun m => m.object.text) ++ messageObjects r.textBehindArray := by
  have hend (objects : List Bytes) : [93].foldl step ⟨.seeking, objects⟩ =
      ⟨.seeking, objects⟩ := rfl
  have hfound := objects_foldl_step r.textBehindArray .seeking
    (objects ++ r.messages.map fun m => m.object.text) []
  rw [append_nil] at hfound
  rw [messageObjects, foldl_append, h, MessagesBody.textInArray, foldl_append, foldl_append,
    foldl_step_seeking (not_mem_blank r.blank (by decide)), foldl_append,
    foldl_step_elements r.messages (by decide), hend, hfound]
  rfl

/-! ## The prompt -/

theorem extractPromptFromMessages_of_lands {raw behind : Bytes}
    (h : Lands 91 raw (ascii "messages") behind) :
    extractPromptFromMessages raw =
      if renderMessages (messageObjects behind) = [] then flatPrompt raw
      else renderMessages (messageObjects behind) ++ assistantTurn := by
  rw [extractPromptFromMessages, find_key_eq_some_iff.2 h]
  rfl

theorem extractPromptFromMessages_of_reached {r : MessagesBody} (h : r.Reached) :
    extractPromptFromMessages r.document.text =
      if r.messages.flatMap Message.readChatML ++
          renderMessages (messageObjects r.textBehindArray) = [] then
        flatPrompt r.document.text
      else r.messages.flatMap Message.readChatML ++
        renderMessages (messageObjects r.textBehindArray) ++ assistantTurn := by
  obtain ⟨before, objects, hlands, hbefore, hempty⟩ := h
  have hobjects : renderMessages (messageObjects (before ++ r.textInArray)) =
      r.messages.flatMap Message.readChatML ++
        renderMessages (messageObjects r.textBehindArray) := by
    have hnil := renderMessages_eq_nil_iff.2 hempty
    rw [renderMessages] at hnil
    rw [messageObjects_textInArray r hbefore, renderMessages, flatMap_append, flatMap_append, hnil,
      nil_append, flatMap_map]
    rfl
  rw [extractPromptFromMessages_of_lands hlands, hobjects]

def MessagesBody.Empty (r : MessagesBody) : Prop :=
  ∀ m ∈ r.messages, m.contentLetters = []

/-- Which bodies are rendered right.  If no message has a content, nothing else of the body may be
rendered.  Otherwise the scan has to reach the array, each of its messages has to be read right, and
no object behind the array may have a content. -/
structure MessagesBody.Rendered (r : MessagesBody) : Prop where
  empty : r.Empty →
    (∀ msgObj ∈ bodyMessages r.document.text, messageContent msgObj = []) ∧
      flatPrompt r.document.text = []
  reached : ¬r.Empty → r.Reached
  readable : ¬r.Empty → ∀ m ∈ r.messages, m.Readable
  behind : ¬r.Empty → ∀ msgObj ∈ messageObjects r.textBehindArray, messageContent msgObj = []

theorem MessagesBody.rendering_eq (r : MessagesBody) :
    (r.Empty → r.rendering = []) ∧
      (¬r.Empty → r.rendering = r.messages.flatMap Message.chatML ++ assistantTurn) := by
  have hnil : r.messages.flatMap Message.chatML = [] ↔ r.Empty := by
    simp only [flatMap_eq_nil_iff, Message.chatML_eq_nil_iff, MessagesBody.Empty]
  exact ⟨fun h => if_pos (hnil.2 h), fun h => if_neg (mt hnil.1 h)⟩

/-- The condition is enough for every body.  It is necessary for a body without contents, and for
one whose array is reached and whose messages show a wrong content. -/
theorem extractPromptFromMessages_eq_rendering (r : MessagesBody) :
    (r.Rendered → extractPromptFromMessages r.document.text = r.rendering) ∧
      (r.Empty ∨ (r.Reached ∧ ∀ m ∈ r.messages, m.Tells) →
        extractPromptFromMessages r.document.text = r.rendering → r.Rendered) := by
  by_cases hempty : r.Empty
  · rw [r.rendering_eq.1 hempty, extractPromptFromMessages_eq_nil_iff]
    exact ⟨fun h => h.empty hempty, fun _ h => ⟨fun _ => h, absurd hempty, absurd hempty,
      absurd hempty⟩⟩
  have hrendering := r.rendering_eq.2 hempty
  have hne : r.messages.flatMap Message.chatML ≠ [] := by
    intro hnil
    simp only [flatMap_eq_nil_iff, Message.chatML_eq_nil_iff] at hnil
    exact hempty hnil
  rw [hrendering]
  constructor
  · intro h
    have hread : r.messages.flatMap Message.readChatML = r.messages.flatMap Message.chatML :=
      flatMap_congr fun m hm => m.readChatML_of_readable (h.readable hempty m hm)
    rw [extractPromptFromMessages_of_reached (h.reached hempty),
      renderMessages_eq_nil_iff.2 (h.behind hempty), hread, append_nil, if_neg hne]
  · rintro (h | ⟨hreached, htells⟩) heq
    · exact absurd h hempty
    -- both sides end in the turn of the assistant, which the comparison never reaches
    have hequal := EqualIff.flatMap fun m hm => Message.equalIff_chatML (htells m hm)
    have hread : r.messages.flatMap Message.readChatML ≠ [] := mt hequal.eq_nil_iff.1 hne
    rw [extractPromptFromMessages_of_reached hreached,
      if_neg (append_ne_nil_of_left_ne_nil hread _), append_assoc,
      hequal.append_eq_append_iff, append_left_eq_self, renderMessages_eq_nil_iff] at heq
    exact ⟨fun h => absurd h hempty, fun _ => hreached, fun _ => heq.1, fun _ => heq.2⟩

def messageOf (role content : Bytes) (hrole : ∀ l ∈ role.map letterOf, l.isUnicode = false)
    (hcontent : ∀ l ∈ content.map letterOf, l.isUnicode = false) : Message where
  before := noBlank
  blank := noBlank
  members := stringMember (ascii "role") role (stringMember (ascii "content") content .noMember)
  after := noBlank
  role := ⟨noBlank, noBlank, .string (role.map letterOf),
    (stringMember (ascii "content") content .noMember).textFrom [44]⟩
  roleLetters := role.map letterOf
  role_field := rfl
  role_string := rfl
  role_plain := hrole
  content := fieldOf content
  contentLetters := content.map letterOf
  content_field := rfl
  content_string := rfl
  content_plain := hcontent

def userMessage : Message :=
  messageOf (ascii "user") (ascii "hi") (by decide) (by decide)

def systemMessage : Message :=
  messageOf (ascii "system") (ascii "be \"brief\"") (by decide) (by decide)

def metadataBody : MessagesBody where
  document :=
    { leading := noBlank
      blank := noBlank
      members := .member noBlank ((ascii "metadata").map letterOf) noBlank noBlank
        (.object noBlank (stringMember (ascii "messages") (ascii "x") .noMember)) noBlank
        (.member noBlank ((ascii "messages").map letterOf) noBlank noBlank
          (.array noBlank (elementsOf [systemMessage, userMessage])) noBlank
          (.member noBlank ((ascii "options").map letterOf) noBlank noBlank
            (.object noBlank (stringMember (ascii "model") (ascii "m") .noMember)) noBlank
            .noMember))
      trailing := noBlank }
  field := ⟨noBlank, noBlank, .array noBlank (elementsOf [systemMessage, userMessage]),
    ascii ",\"options\":\x7b\"model\":\"m\"\x7d"⟩
  blank := noBlank
  messages := [systemMessage, userMessage]
  member := rfl
  array := rfl

theorem extractPromptFromMessages_metadataBody :
    metadataBody.document.text =
        ascii "\x7b\"metadata\":\x7b\"messages\":\"x\"\x7d,\"messages\":[" ++
          ascii "\x7b\"role\":\"system\",\"content\":\"be \\\"brief\\\"\"\x7d," ++
          ascii "\x7b\"role\":\"user\",\"content\":\"hi\"\x7d]," ++
          ascii "\"options\":\x7b\"model\":\"m\"\x7d\x7d" ∧
      extractPromptFromMessages metadataBody.document.text = metadataBody.rendering := by
  have hfull : ¬metadataBody.Empty := by
    intro hempty
    cases hempty userMessage (by simp [metadataBody])
  have hread : ∀ m ∈ metadataBody.messages,
      messageContent m.object.text = stringValue m.contentLetters ∧
        speaker (messageRole m.object.text) = speaker (stringValue m.roleLetters) := by
    simp only [metadataBody, forall_mem_cons]
    decide +kernel
  refine ⟨by decide +kernel, (extractPromptFromMessages_eq_rendering metadataBody).1
    ⟨fun h => absurd h hfull, fun _ => ?_, fun _ m hm => ?_, fun _ => by decide +kernel⟩⟩
  · refine ⟨[], [], find_key_eq_some_iff.1 (by decide +kernel), rfl, forall_mem_nil _⟩
  · exact m.readable_iff.2 ⟨(hread m hm).1, fun _ => (hread m hm).2⟩

def bodyWith (ms : Members) : MessagesBody where
  document :=
    { leading := noBlank
      blank := noBlank
      members := .member noBlank ((ascii "messages").map letterOf) noBlank noBlank
        (.array noBlank (elementsOf [userMessage])) noBlank ms
      trailing := noBlank }
  field := ⟨noBlank, noBlank, .array noBlank (elementsOf [userMessage]), ms.textFrom [44]⟩
  blank := noBlank
  messages := [userMessage]
  member := rfl
  array := rfl

def tools : Members :=
  .member noBlank ((ascii "tools").map letterOf) noBlank noBlank
    (.array noBlank (.element noBlank
      (.object noBlank (stringMember (ascii "content") (ascii "x") .noMember)) noBlank .noElement))
    noBlank .noMember

theorem extractPromptFromMessages_tools :
    (bodyWith tools).document.text =
        ascii "\x7b\"messages\":[\x7b\"role\":\"user\",\"content\":\"hi\"\x7d]," ++
          ascii "\"tools\":[\x7b\"content\":\"x\"\x7d]\x7d" ∧
      (bodyWith tools).rendering =
        ascii "<|im_start|>user\nhi<|im_end|>\n" ++ ascii "<|im_start|>assistant\n" ∧
      extractPromptFromMessages (bodyWith tools).document.text =
        ascii "<|im_start|>user\nhi<|im_end|>\n" ++ ascii "<|im_start|>user\nx<|im_end|>\n" ++
          ascii "<|im_start|>assistant\n" := by
  decide +kernel

end TKNC.Gateway
