import AndroidStrings.Text.Search
import AndroidStrings.Markup.Error

/-!
# Events of a marked-up text

A text falls into events: plain text between tags, tags, comments, character data, document type
declarations, instructions and the declaration.  An event keeps everything between its
delimiters, so that the events of a text spell it out again.

## Main statement

`eq_raw_append_of_next` : the first event, written out, and the rest are the whole text.
-/

namespace AndroidStrings
namespace Markup

/-- White space between the parts of a tag. -/
def isSpace (c : Char) : Bool :=
  c == ' ' || c == '\r' || c == '\n' || c == '\t'

/-- A `comment`, `cdata` or `doctype` keeps what stands between `<!` and `>`, an `instruction`
or `declaration` what stands between `<?` and `?>`, and an end tag what follows `</`. -/
inductive Event where
  | text (content : Text)
  | comment (content : Text)
  | cdata (content : Text)
  | doctype (content : Text)
  | instruction (content : Text)
  | declaration (content : Text)
  | startTag (content : Text)
  | emptyTag (content : Text)
  | endTag (content : Text)
  deriving DecidableEq, Repr

namespace Event

/-- The text of an event as it stands in a file. -/
def raw : Event → Text
  | text content => content
  | comment content => '<' :: '!' :: content ++ ['>']
  | cdata content => '<' :: '!' :: content ++ ['>']
  | doctype content => '<' :: '!' :: content ++ ['>']
  | instruction content => '<' :: '?' :: content ++ ['?', '>']
  | declaration content => '<' :: '?' :: content ++ ['?', '>']
  | startTag content => '<' :: content ++ ['>']
  | emptyTag content => '<' :: content ++ ['/', '>']
  | endTag content => '<' :: '/' :: content ++ ['>']

end Event

/-!
## Names

The name of a start tag ends at the first white space.  An end tag's name is cut of white space
at its end, unless it is nothing but white space.
-/

def tagName (content : Text) : Text :=
  content.takeWhile fun c => !isSpace c

def endTagName (content : Text) : Text :=
  match Text.trimEnd isSpace content with
  | [] => content
  | name => name

/-!
## Single constructs
-/

/-- Cuts at the first `>` that stands outside quotes. -/
def cutTag? (quote : Option Char) : Text → Option (Text × Text)
  | [] => none
  | c :: t =>
      let extend := fun (parts : Text × Text) => (c :: parts.1, parts.2)
      match quote with
      | none =>
          if c = '>' then some ([], t)
          else if c = '"' ∨ c = '\'' then (cutTag? (some c) t).map extend
          else (cutTag? none t).map extend
      | some q =>
          if c = q then (cutTag? none t).map extend
          else (cutTag? (some q) t).map extend

/-- Cuts at the `>` that balances the angle brackets opened so far. -/
def cutBalanced? (depth : Nat) : Text → Option (Text × Text)
  | [] => none
  | c :: t =>
      let extend := fun (parts : Text × Text) => (c :: parts.1, parts.2)
      if c = '<' then (cutBalanced? (depth + 1) t).map extend
      else if c = '>' then
        match depth with
        | 0 => some ([], t)
        | outer + 1 => (cutBalanced? outer t).map extend
      else (cutBalanced? depth t).map extend

def upper (c : Char) : Char :=
  if 'a' ≤ c ∧ c ≤ 'z' then Char.ofNat (c.toNat - 32) else c

/-- Splits off a keyword, in whatever case its letters are. -/
def splitKeyword? (keyword t : Text) : Option (Text × Text) :=
  let front := t.take keyword.length
  if front.map upper = keyword then some (front, t.drop keyword.length) else none

def nextComment (t : Text) : Except Error (Event × Text) :=
  match t with
  | '-' :: '-' :: body =>
      match Text.cutAt? ['-', '-', '>'] body with
      | some (content, rest) => .ok (.comment ('-' :: '-' :: content ++ ['-', '-']), rest)
      | none => .error .unclosedComment
  | _ => .error .unclosedComment

def nextCData (t : Text) : Except Error (Event × Text) :=
  match Text.stripPrefix? "[CDATA[".toList t with
  | some body =>
      match Text.cutAt? [']', ']', '>'] body with
      | some (content, rest) => .ok (.cdata ("[CDATA[".toList ++ content ++ [']', ']']), rest)
      | none => .error .unclosedCData
  | none => .error .unclosedCData

def nextDoctype (t : Text) : Except Error (Event × Text) :=
  match splitKeyword? "DOCTYPE".toList t with
  | some (keyword, body) =>
      match cutBalanced? 0 body with
      | some (content, rest) =>
          if content.all isSpace then .error .namelessDoctype
          else .ok (.doctype (keyword ++ content), rest)
      | none => .error .unclosedDoctype
  | none => .error .unclosedDoctype

def isDeclaration (content : Text) : Bool :=
  match Text.stripPrefix? "xml".toList content with
  | some [] => true
  | some (c :: _) => isSpace c
  | none => false

def nextInstruction (t : Text) : Except Error (Event × Text) :=
  match t with
  | '>' :: _ => .error .unclosedInstruction
  | _ =>
      match Text.cutAt? ['?', '>'] t with
      | some (content, rest) =>
          .ok (if isDeclaration content then .declaration content else .instruction content, rest)
      | none => .error .unclosedInstruction

/-- The tag whose content, without angle brackets, is given. -/
def tagEvent (content : Text) : Event :=
  match content with
  | '/' :: name => .endTag name
  | _ =>
      if content.getLast? = some '/' then .emptyTag content.dropLast
      else .startTag content

def nextTag (t : Text) : Except Error (Event × Text) :=
  match cutTag? none t with
  | some (content, rest) => .ok (tagEvent content, rest)
  | none => .error .unclosedTag

/-- The event that begins with a `<` right before the text, and what follows it. -/
def nextMarkup : Text → Except Error (Event × Text)
  | '!' :: '-' :: t => nextComment ('-' :: t)
  | '!' :: '[' :: t => nextCData ('[' :: t)
  | '!' :: 'D' :: t => nextDoctype ('D' :: t)
  | '!' :: 'd' :: t => nextDoctype ('d' :: t)
  | '!' :: _ => .error .unknownDeclaration
  | '?' :: t => nextInstruction t
  | t => nextTag t

/-- The first event of a nonempty text, and what follows it. -/
def next : Text → Except Error (Event × Text)
  | '<' :: t => nextMarkup t
  | t => .ok (.text (t.takeWhile (· != '<')), t.dropWhile (· != '<'))

/-!
## Events spell out the text
-/

theorem append_of_cutTag? {quote : Option Char} {t content rest : Text}
    (h : cutTag? quote t = some (content, rest)) : t = content ++ '>' :: rest := by
  induction t generalizing quote content with
  | nil => simp [cutTag?] at h
  | cons c t ih =>
      have extended : ∀ {q : Option Char},
          (cutTag? q t).map (fun parts => (c :: parts.1, parts.2)) = some (content, rest) →
            c :: t = content ++ '>' :: rest := by
        intro q hq
        obtain ⟨parts, hparts, heq⟩ := Option.map_eq_some_iff.mp hq
        simp only [Prod.mk.injEq] at heq
        have htail : t = parts.1 ++ '>' :: rest := ih (by rw [hparts, ← heq.2])
        rw [← heq.1, htail]
        simp
      cases quote with
      | none =>
          simp only [cutTag?] at h
          split at h
          · rename_i hc
            simp only [Option.some.injEq, Prod.mk.injEq] at h
            simp [hc, ← h.1, ← h.2]
          · split at h
            · exact extended h
            · exact extended h
      | some q =>
          simp only [cutTag?] at h
          split at h
          · exact extended h
          · exact extended h

theorem append_of_cutBalanced? {depth : Nat} {t content rest : Text}
    (h : cutBalanced? depth t = some (content, rest)) : t = content ++ '>' :: rest := by
  induction t generalizing depth content with
  | nil => simp [cutBalanced?] at h
  | cons c t ih =>
      have extended : ∀ {d : Nat},
          (cutBalanced? d t).map (fun parts => (c :: parts.1, parts.2)) = some (content, rest) →
            c :: t = content ++ '>' :: rest := by
        intro d hd
        obtain ⟨parts, hparts, heq⟩ := Option.map_eq_some_iff.mp hd
        simp only [Prod.mk.injEq] at heq
        have htail : t = parts.1 ++ '>' :: rest := ih (by rw [hparts, ← heq.2])
        rw [← heq.1, htail]
        simp
      simp only [cutBalanced?] at h
      split at h
      · exact extended h
      · split at h
        · rename_i hc
          split at h
          · simp only [Option.some.injEq, Prod.mk.injEq] at h
            simp [hc, ← h.1, ← h.2]
          · exact extended h
        · exact extended h

theorem append_of_splitKeyword? {keyword t front back : Text}
    (h : splitKeyword? keyword t = some (front, back)) : t = front ++ back := by
  simp only [splitKeyword?] at h
  split at h
  · simp only [Option.some.injEq, Prod.mk.injEq] at h
    rw [← h.1, ← h.2, List.take_append_drop]
  · simp at h

theorem raw_tagEvent (content : Text) : (tagEvent content).raw = '<' :: content ++ ['>'] := by
  unfold tagEvent
  split
  · rfl
  · split
    · rename_i hlast
      obtain ⟨front, hfront⟩ := List.getLast?_eq_some_iff.mp hlast
      subst hfront
      simp [Event.raw]
    · rfl

theorem eq_raw_append_of_nextMarkup {t rest : Text} {event : Event}
    (h : nextMarkup t = .ok (event, rest)) : '<' :: t = event.raw ++ rest := by
  have doctype : ∀ {u : Text}, nextDoctype u = .ok (event, rest) →
      '<' :: '!' :: u = event.raw ++ rest := by
    intro u hu
    simp only [nextDoctype] at hu
    split at hu
    · rename_i keyword body hkeyword
      split at hu
      · rename_i content after hcut
        split at hu
        · simp at hu
        · simp only [Except.ok.injEq, Prod.mk.injEq] at hu
          rw [← hu.1, ← hu.2, append_of_splitKeyword? hkeyword, append_of_cutBalanced? hcut]
          simp [Event.raw]
      · simp at hu
    · simp at hu
  unfold nextMarkup at h
  split at h
  · rename_i u
    simp only [nextComment] at h
    split at h
    · rename_i body hbody
      split at h
      · rename_i content after hcut
        simp only [Except.ok.injEq, Prod.mk.injEq] at h
        rw [← h.1, ← h.2, hbody, Text.append_of_cutAt? hcut]
        simp [Event.raw]
      · simp at h
    · simp at h
  · rename_i u
    simp only [nextCData] at h
    split at h
    · rename_i body hbody
      split at h
      · rename_i content after hcut
        simp only [Except.ok.injEq, Prod.mk.injEq] at h
        rw [← h.1, ← h.2, Text.append_of_stripPrefix? hbody, Text.append_of_cutAt? hcut]
        simp [Event.raw]
      · simp at h
    · simp at h
  · exact doctype h
  · exact doctype h
  · simp at h
  · rename_i u
    unfold nextInstruction at h
    split at h
    · simp at h
    · split at h
      · rename_i content after hcut
        simp only [Except.ok.injEq, Prod.mk.injEq] at h
        rw [← h.1, ← h.2, Text.append_of_cutAt? hcut]
        split
        · simp [Event.raw]
        · simp [Event.raw]
      · simp at h
  · simp only [nextTag] at h
    split at h
    · rename_i content after hcut
      simp only [Except.ok.injEq, Prod.mk.injEq] at h
      rw [← h.1, ← h.2, raw_tagEvent, append_of_cutTag? hcut]
      simp
    · simp at h

theorem eq_raw_append_of_next {t rest : Text} {event : Event}
    (h : next t = .ok (event, rest)) : t = event.raw ++ rest := by
  unfold next at h
  split at h
  · exact eq_raw_append_of_nextMarkup h
  · simp only [Except.ok.injEq, Prod.mk.injEq] at h
    rw [← h.1, ← h.2]
    simp [Event.raw]

theorem tagEvent_ne_text (content text : Text) : tagEvent content ≠ .text text := by
  unfold tagEvent
  split
  · simp
  · split <;> simp

theorem nextMarkup_ne_text {t text rest : Text} : nextMarkup t ≠ .ok (.text text, rest) := by
  intro h
  unfold nextMarkup at h
  split at h
  · simp only [nextComment] at h
    repeat' split at h
    all_goals simp at h
  · simp only [nextCData] at h
    repeat' split at h
    all_goals simp at h
  · simp only [nextDoctype] at h
    repeat' split at h
    all_goals simp at h
  · simp only [nextDoctype] at h
    repeat' split at h
    all_goals simp at h
  · simp at h
  · unfold nextInstruction at h
    repeat' split at h
    all_goals simp at h
  · simp only [nextTag] at h
    split at h
    · simp only [Except.ok.injEq, Prod.mk.injEq] at h
      exact tagEvent_ne_text _ _ h.1
    · simp at h

/-- Markup is at least a pair of angle brackets, and text before the first `<` is not empty. -/
theorem raw_ne_nil_of_next {t rest : Text} {event : Event} (ht : t ≠ [])
    (h : next t = .ok (event, rest)) : event.raw ≠ [] := by
  unfold next at h
  split at h
  · cases event with
    | text content => exact absurd h nextMarkup_ne_text
    | _ => simp [Event.raw]
  · rename_i hfront
    simp only [Except.ok.injEq, Prod.mk.injEq] at h
    rw [← h.1]
    cases t with
    | nil => exact absurd rfl ht
    | cons c u =>
        have hc : c ≠ '<' := fun heq => hfront u (by rw [heq])
        simp [Event.raw, hc]

theorem length_lt_of_next {t rest : Text} {event : Event} (ht : t ≠ [])
    (h : next t = .ok (event, rest)) : rest.length < t.length := by
  have hraw := List.length_pos_iff.mpr (raw_ne_nil_of_next ht h)
  rw [eq_raw_append_of_next h, List.length_append]
  omega

end Markup
end AndroidStrings
