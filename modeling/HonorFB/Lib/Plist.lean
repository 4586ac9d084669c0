import HonorFB.Lib.Replace

/-!
# The outline of XML property lists

A reader of property lists that keeps what is open at each place: the tags, the turn of keys and
values in a dictionary, comments, and the declarations before the list. What a text does to the
reader is a partial map of its states, and two texts that do the same can stand for each other in
any list (`Same`).
-/

namespace Plist

inductive Element where
  | plist
  | dict
  | array
  | key
  | string
  | data
  | date
  | integer
  | real
  | boolTrue
  | boolFalse
  deriving DecidableEq, Repr

def Element.text : Element → List Char
  | .plist => ['p', 'l', 'i', 's', 't']
  | .dict => ['d', 'i', 'c', 't']
  | .array => ['a', 'r', 'r', 'a', 'y']
  | .key => ['k', 'e', 'y']
  | .string => ['s', 't', 'r', 'i', 'n', 'g']
  | .data => ['d', 'a', 't', 'a']
  | .date => ['d', 'a', 't', 'e']
  | .integer => ['i', 'n', 't', 'e', 'g', 'e', 'r']
  | .real => ['r', 'e', 'a', 'l']
  | .boolTrue => ['t', 'r', 'u', 'e']
  | .boolFalse => ['f', 'a', 'l', 's', 'e']

inductive Tag where
  | opens (e : Element)
  | closes (e : Element)
  | empty (e : Element)
  deriving DecidableEq, Repr

namespace Tag

/-- What stands between the angle brackets. -/
def text : Tag → List Char
  | .opens .plist =>
    Element.plist.text ++ [' ', 'v', 'e', 'r', 's', 'i', 'o', 'n', '=', '"', '1', '.', '0', '"']
  | .opens e => e.text
  | .closes e => '/' :: e.text
  | .empty e => e.text ++ ['/']

def all : List Tag :=
  [.plist, .dict, .array, .key, .string, .data, .date, .integer, .real].flatMap
      (fun e => [.opens e, .closes e]) ++
    [.dict, .array, .string, .data, .boolTrue, .boolFalse].map .empty

end Tag

/-- What is open. `due` is whether a key waits for its value. -/
inductive Frame where
  | document (full : Bool)
  | plist (full : Bool)
  | dict (due : Bool)
  | array
  | leaf (e : Element)
  deriving DecidableEq, Repr

/-- The frame an element stands in, after it. -/
def turn : Element → Frame → Option Frame
  | .plist, .document false => some (.document true)
  | .plist, _ => none
  | .key, .dict false => some (.dict true)
  | .key, _ => none
  | _, .plist false => some (.plist true)
  | _, .dict true => some (.dict false)
  | _, .array => some .array
  | _, _ => none

/-- An element in the innermost frame. -/
def place (e : Element) : List Frame → Option (List Frame)
  | f :: r => (turn e f).map fun f => f :: r
  | [] => none

namespace Element

/-- What is open behind the opening tag. -/
def opened : Element → Frame
  | .plist => .plist false
  | .dict => .dict false
  | .array => .array
  | e => .leaf e

/-- What the closing tag closes. -/
def closed : Element → Frame
  | .plist => .plist true
  | .dict => .dict false
  | .array => .array
  | e => .leaf e

end Element

/-- What is open after the tag. -/
def Tag.apply : Tag → List Frame → Option (List Frame)
  | .opens e, s => (place e s).map fun s => e.opened :: s
  | .closes e, f :: r => if f = e.closed then some r else none
  | .closes _, [] => none
  | .empty e, s => place e s

inductive Mode where
  | content
  | tag (read : List Char)
  | comment (dashes : Nat)
  | declaration
  deriving DecidableEq, Repr

structure Reader where
  mode : Mode
  stack : List Frame
  deriving DecidableEq, Repr

def isBlank (c : Char) : Bool := c == ' ' || c == '\t' || c == '\n' || c == '\r'

/-- Text can stand here. -/
def holdsText : List Frame → Bool
  | .leaf _ :: _ => true
  | _ => false

/-- Before the list. -/
def isBefore : List Frame → Bool
  | .document false :: _ => true
  | _ => false

/-- What the reader looks for behind an opening bracket. -/
def markup : List (List Char) := ['!', '-', '-'] :: Tag.all.map Tag.text

/-- Behind an opening bracket and what was read since: a character that continues no tag is not
admitted. -/
def inTag (stack : List Frame) (read : List Char) : Option Reader :=
  if read = ['!', '-', '-'] then some ⟨.comment 0, stack⟩
  else if read = ['?'] ∨ read = ['!', 'D'] then
    if isBefore stack then some ⟨.declaration, stack⟩ else none
  else if markup.any fun w => read.isPrefixOf w then some ⟨.tag read, stack⟩
  else none

def next (s : Reader) (c : Char) : Option Reader :=
  match s.mode with
  | .content =>
    if c = '<' then some ⟨.tag [], s.stack⟩
    else if holdsText s.stack || isBlank c then some s
    else none
  | .tag read =>
    if c = '>' then
      (Tag.all.find? fun t => t.text == read).bind fun t =>
        (t.apply s.stack).map (Reader.mk .content)
    else inTag s.stack (read ++ [c])
  | .comment dashes =>
    -- it ends at the first bracket behind two dashes
    if c = '-' then some ⟨.comment (dashes + 1), s.stack⟩
    else if c = '>' ∧ 2 ≤ dashes then some ⟨.content, s.stack⟩
    else some ⟨.comment 0, s.stack⟩
  | .declaration =>
    if c = '<' then none
    else if c = '>' then some ⟨.content, s.stack⟩
    else some s

def read (s : Option Reader) (t : List Char) : Option Reader :=
  t.foldl (fun s c => s.bind fun s => next s c) s

/-- The text is one list, with nothing left open. -/
def WellFormed (t : List Char) : Prop :=
  read (some ⟨.content, [.document false]⟩) t = some ⟨.content, [.document true]⟩

instance (t : List Char) : Decidable (WellFormed t) :=
  inferInstanceAs (Decidable (_ = _))

@[simp] theorem read_none (t : List Char) : read none t = none := by
  induction t with
  | nil => rfl
  | cons c t ih => exact ih

theorem read_cons (s : Reader) (c : Char) (t : List Char) :
    read (some s) (c :: t) = read (next s c) t := rfl

theorem next_content (stack : List Frame) (c : Char) :
    next ⟨.content, stack⟩ c =
      if c = '<' then some ⟨.tag [], stack⟩
      else if holdsText stack || isBlank c then some ⟨.content, stack⟩
      else none := rfl

theorem next_declaration (stack : List Frame) (c : Char) :
    next ⟨.declaration, stack⟩ c =
      if c = '<' then none
      else if c = '>' then some ⟨.content, stack⟩
      else some ⟨.declaration, stack⟩ := rfl

theorem next_tag {c : Char} (hc : c ≠ '>') (stack : List Frame) (t : List Char) :
    next ⟨.tag t, stack⟩ c = inTag stack (t ++ [c]) := if_neg hc

theorem inTag_cases (stack : List Frame) (t : List Char) :
    inTag stack t = none ∨ inTag stack t = some ⟨.comment 0, stack⟩ ∨
      inTag stack t = some ⟨.declaration, stack⟩ ∨ inTag stack t = some ⟨.tag t, stack⟩ := by
  unfold inTag
  split
  · simp
  · split
    · split <;> simp
    · split <;> simp

theorem read_append (s : Option Reader) (a b : List Char) :
    read s (a ++ b) = read (read s a) b := List.foldl_append

/-! ## What is open outside does not matter -/

theorem place_append {e : Element} {stack stack' : List Frame} (h : place e stack = some stack')
    (r : List Frame) : place e (stack ++ r) = some (stack' ++ r) := by
  cases stack with
  | nil => cases h
  | cons f stack =>
    obtain ⟨f', hf', rfl⟩ := Option.map_eq_some_iff.1 h
    exact Option.map_eq_some_iff.2 ⟨f', hf', rfl⟩

theorem Tag.apply_append {t : Tag} {stack stack' : List Frame} (h : t.apply stack = some stack')
    (r : List Frame) : t.apply (stack ++ r) = some (stack' ++ r) := by
  cases t with
  | opens e =>
    obtain ⟨s, hs, rfl⟩ := Option.map_eq_some_iff.1 h
    exact Option.map_eq_some_iff.2 ⟨_, place_append hs r, rfl⟩
  | closes e =>
    cases stack with
    | nil => cases h
    | cons f stack =>
      by_cases hf : f = e.closed
      · obtain rfl := Option.some.inj ((if_pos hf).symm.trans h)
        exact if_pos hf
      · have hnone := (if_neg hf).symm.trans h
        cases hnone
  | empty e => exact place_append h r

theorem inTag_append {stack stack' : List Frame} {m : Mode} {t : List Char}
    (h : inTag stack t = some ⟨m, stack'⟩) (r : List Frame) :
    inTag (stack ++ r) t = some ⟨m, stack' ++ r⟩ := by
  unfold inTag at h ⊢
  split at h
  · next hcomment =>
    cases h
    rw [if_pos hcomment]
  · next hcomment =>
    rw [if_neg hcomment]
    split at h
    · next hdeclaration =>
      rw [if_pos hdeclaration]
      cases stack with
      | nil => cases h
      | cons f stack => cases f with
        | document full => cases full <;> cases h; rfl
        | _ => cases h
    · next hdeclaration =>
      rw [if_neg hdeclaration]
      split at h
      · next hmarkup =>
        cases h
        rw [if_pos hmarkup]
      · cases h

theorem holdsText_append {stack : List Frame} (h : holdsText stack = true) (r : List Frame) :
    holdsText (stack ++ r) = true := by
  cases stack with
  | nil => cases h
  | cons f stack =>
    cases f with
    | leaf e => rfl
    | _ => cases h

theorem next_append {stack stack' : List Frame} {m m' : Mode} {c : Char}
    (h : next ⟨m, stack⟩ c = some ⟨m', stack'⟩) (r : List Frame) :
    next ⟨m, stack ++ r⟩ c = some ⟨m', stack' ++ r⟩ := by
  cases m with
  | content =>
    simp only [next] at h ⊢
    split at h
    · next hc => cases h; rw [if_pos hc]
    · next hc =>
      rw [if_neg hc]
      split at h
      · next htext =>
        cases h
        rw [if_pos]
        rw [Bool.or_eq_true] at htext ⊢
        exact htext.imp_left fun h => holdsText_append h r
      · cases h
  | tag t =>
    simp only [next] at h ⊢
    split at h
    · next hc =>
      rw [if_pos hc]
      obtain ⟨tag, htag, hmap⟩ := Option.bind_eq_some_iff.1 h
      obtain ⟨s, hs, heq⟩ := Option.map_eq_some_iff.1 hmap
      cases heq
      rw [htag]
      exact Option.map_eq_some_iff.2 ⟨_, Tag.apply_append hs r, rfl⟩
    · next hc =>
      rw [if_neg hc]
      exact inTag_append h r
  | comment d =>
    simp only [next] at h ⊢
    split at h
    · next hc => cases h; rw [if_pos hc]
    · next hc =>
      rw [if_neg hc]
      split at h
      · next hc => cases h; rw [if_pos hc]
      · next hc => cases h; rw [if_neg hc]
  | declaration =>
    simp only [next] at h ⊢
    split at h
    · cases h
    · next hc =>
      rw [if_neg hc]
      split at h
      · next hc => cases h; rw [if_pos hc]
      · next hc => cases h; rw [if_neg hc]

theorem read_frame (t : List Char) : ∀ {m m' : Mode} {stack stack' : List Frame},
    read (some ⟨m, stack⟩) t = some ⟨m', stack'⟩ → ∀ r,
      read (some ⟨m, stack ++ r⟩) t = some ⟨m', stack' ++ r⟩ := by
  induction t with
  | nil =>
    intro m m' stack stack' h r
    cases h
    rfl
  | cons c t ih =>
    intro m m' stack stack' h r
    rw [read_cons] at h ⊢
    cases hnext : next ⟨m, stack⟩ c with
    | none =>
      rw [hnext, read_none] at h
      cases h
    | some s =>
      rw [hnext] at h
      rw [next_append hnext r]
      exact ih h r

/-! ## Comments -/

/-- How many dashes stand at the end of a comment that goes on, or `none` if the text ends it. -/
def commentAfter (dashes : Nat) : List Char → Option Nat
  | [] => some dashes
  | c :: t =>
    if c = '-' then commentAfter (dashes + 1) t
    else if c = '>' ∧ 2 ≤ dashes then none
    else commentAfter 0 t

theorem commentAfter_append (a b : List Char) : ∀ dashes,
    commentAfter dashes (a ++ b) = (commentAfter dashes a).bind fun d => commentAfter d b := by
  induction a with
  | nil => intro dashes; rfl
  | cons c a ih =>
    intro dashes
    simp only [List.cons_append, commentAfter]
    split
    · exact ih _
    · split
      · rfl
      · exact ih _

/-- A comment forgets the dashes at a character that is neither a dash nor a bracket. -/
theorem commentAfter_of_head {c : Char} (hdash : c ≠ '-') (hbracket : c ≠ '>') (t : List Char)
    (dashes : Nat) : commentAfter dashes (c :: t) = commentAfter 0 t := by
  rw [commentAfter, if_neg hdash, if_neg fun h => hbracket h.1]

theorem commentAfter_isSome {t : List Char} (h : '>' ∉ t) : ∀ dashes,
    ∃ d, commentAfter dashes t = some d := by
  induction t with
  | nil => intro dashes; exact ⟨dashes, rfl⟩
  | cons c t ih =>
    intro dashes
    rw [List.mem_cons, not_or] at h
    unfold commentAfter
    rw [if_neg fun hc : c = '>' ∧ 2 ≤ dashes => h.1 hc.1.symm]
    split
    · exact ih h.2 _
    · exact ih h.2 _

theorem commentAfter_zero_append {a b : List Char} (ha : commentAfter 0 a = some 0)
    (hb : commentAfter 0 b = some 0) : commentAfter 0 (a ++ b) = some 0 := by
  rw [commentAfter_append, ha, Option.bind_some, hb]

/-- What a comment holds is forgotten at the next tag. -/
theorem commentAfter_tag {a t : List Char} (ha : '>' ∉ a) (ht : t.head? = some '<')
    (h : commentAfter 0 t = some 0) (dashes : Nat) : commentAfter dashes (a ++ t) = some 0 := by
  obtain ⟨d, hd⟩ := commentAfter_isSome ha dashes
  obtain ⟨t', rfl⟩ := List.head?_eq_some_iff.1 ht
  rw [commentAfter_append, hd, Option.bind_some, commentAfter_of_head (by decide) (by decide), ← h,
    commentAfter_of_head (by decide) (by decide)]

theorem read_comment {t : List Char} (stack : List Frame) : ∀ {dashes d : Nat},
    commentAfter dashes t = some d →
      read (some ⟨.comment dashes, stack⟩) t = some ⟨.comment d, stack⟩ := by
  induction t with
  | nil =>
    intro dashes d h
    cases h
    rfl
  | cons c t ih =>
    intro dashes d h
    rw [read_cons]
    simp only [commentAfter, next] at h ⊢
    split at h
    · next hc =>
      rw [if_pos hc]
      exact ih h
    · next hc =>
      rw [if_neg hc]
      split at h
      · cases h
      · next hc =>
        rw [if_neg hc]
        exact ih h

/-! ## Texts that do the same -/

/-- The texts take the reader from every place to the same place. -/
def Same (a b : List Char) : Prop := ∀ s : Option Reader, read s a = read s b

theorem Same.of_some {a b : List Char} (h : ∀ s : Reader, read (some s) a = read (some s) b) :
    Same a b := by
  intro s
  cases s with
  | none => rw [read_none, read_none]
  | some s => exact h s

theorem Same.trans {a b c : List Char} (h : Same a b) (h' : Same b c) : Same a c :=
  fun s => (h s).trans (h' s)

theorem Same.symm {a b : List Char} (h : Same a b) : Same b a := fun s => (h s).symm

/-- **A text may stand for another one wherever that stands.** -/
theorem read_replace {e : Replace.Edit Char} (h : Same e.new e.old) (t : List Char) :
    ∀ s, read s (e.replace t) = read s t := by
  rw [Replace.replace_eq]
  induction t using Replace.pass_induction [e] with
  | nil =>
    intro s
    rw [Replace.applyAll_nil]
  | hit f hf t hat ih =>
    intro s
    obtain rfl := List.mem_singleton.1 hf
    rw [Replace.applyAll_hit hat, read_append, read_append, h s, ih]
  | miss c t hat ih =>
    intro s
    rw [Replace.applyAll_miss hat]
    exact ih t List.suffix_rfl _

theorem wellFormed_replace_iff {e : Replace.Edit Char} (h : Same e.new e.old) (t : List Char) :
    WellFormed (e.replace t) ↔ WellFormed t := by
  unfold WellFormed
  rw [read_replace h]

/-! ### Texts that begin with a key -/

/-- Tabs, and an opening key tag. -/
def KeyHeaded (t : List Char) : Prop :=
  ∃ n rest, t = List.replicate (n + 1) '\t' ++ (['<', 'k', 'e', 'y', '>'] ++ rest)

theorem next_content_tab (stack : List Frame) :
    next ⟨.content, stack⟩ '\t' = some ⟨.content, stack⟩ := by
  rw [next_content, if_neg (by decide), if_pos]
  exact Bool.or_true _

theorem read_content_tabs (stack : List Frame) (n : Nat) (t : List Char) :
    read (some ⟨.content, stack⟩) (List.replicate n '\t' ++ t) =
      read (some ⟨.content, stack⟩) t := by
  induction n with
  | zero => rfl
  | succ n ih =>
    rw [List.replicate_succ, List.cons_append, read_cons, next_content_tab, ih]

theorem read_declaration_tabs (stack : List Frame) (n : Nat) (t : List Char) :
    read (some ⟨.declaration, stack⟩) (List.replicate n '\t' ++ t) =
      read (some ⟨.declaration, stack⟩) t := by
  induction n with
  | zero => rfl
  | succ n ih => exact ih

theorem read_content_key (stack : List Frame) (t : List Char) :
    read (some ⟨.content, stack⟩) (['<', 'k', 'e', 'y', '>'] ++ t) =
      read (((Tag.opens .key).apply stack).map (Reader.mk .content)) t := by
  rw [read_append]
  rfl

/-- What can stand behind an opening bracket. -/
def starts : List (List Char) := ['?'] :: ['!', 'D'] :: markup

theorem inTag_eq_none {t : List Char} (h : ∀ w ∈ starts, ¬t ⊆ w) (stack : List Frame) :
    inTag stack t = none := by
  unfold starts at h
  simp only [List.forall_mem_cons] at h
  obtain ⟨hquestion, hdoctype, hmarkup⟩ := h
  have hany : ¬(markup.any fun w => t.isPrefixOf w) = true := by
    rw [List.any_eq_true]
    rintro ⟨w, hw, hp⟩
    exact hmarkup w hw (List.isPrefixOf_iff_prefix.1 hp).subset
  unfold inTag
  rw [if_neg, if_neg, if_neg hany]
  · rintro (rfl | rfl)
    · exact hquestion (List.Subset.refl _)
    · exact hdoctype (List.Subset.refl _)
  · rintro rfl
    exact hmarkup _ List.mem_cons_self (List.Subset.refl _)

/-- No tag holds a tab. -/
theorem next_tag_tab (stack : List Frame) (t : List Char) :
    next ⟨.tag t, stack⟩ '\t' = none := by
  have hnot : ∀ w ∈ starts, '\t' ∉ w := by decide
  rw [next_tag (by decide)]
  apply inTag_eq_none
  intro w hw hsubset
  exact hnot w hw (hsubset (by simp))

/-- Outside of comments it can only stand where a dictionary waits for a key. -/
theorem KeyHeaded.read_eq_none {t : List Char} (h : KeyHeaded t) {s : Reader}
    (hcomment : ∀ d, s.mode ≠ .comment d) (hdict : ∀ r, s ≠ ⟨.content, .dict false :: r⟩) :
    read (some s) t = none := by
  obtain ⟨n, rest, rfl⟩ := h
  obtain ⟨mode, stack⟩ := s
  cases mode with
  | content =>
    rw [read_content_tabs, read_content_key]
    have happly : (Tag.opens .key).apply stack = none := by
      cases stack with
      | nil => rfl
      | cons f r =>
        cases f with
        | dict due =>
          cases due with
          | false => exact absurd rfl (hdict r)
          | true => rfl
        | _ => rfl
    rw [happly]
    exact read_none rest
  | tag t =>
    rw [List.replicate_succ, List.cons_append, read_cons, next_tag_tab, read_none]
  | comment d => exact absurd rfl (hcomment d)
  | declaration =>
    rw [read_declaration_tabs]
    exact read_none _

/-- The tabs forget the dashes before them. -/
theorem KeyHeaded.commentAfter_eq {t : List Char} (h : KeyHeaded t) (dashes : Nat) :
    commentAfter dashes t = commentAfter 0 t := by
  obtain ⟨n, rest, rfl⟩ := h
  rw [List.replicate_succ, List.cons_append, commentAfter_of_head (by decide) (by decide),
    commentAfter_of_head (by decide) (by decide)]

/-- Two such texts do the same if they do the same where a dictionary waits for a key. -/
theorem same_of_key {a b : List Char} (ha : KeyHeaded a) (hb : KeyHeaded b)
    (hacomment : commentAfter 0 a = some 0) (hbcomment : commentAfter 0 b = some 0)
    (hab : ∀ r, read (some ⟨.content, .dict false :: r⟩) a =
      read (some ⟨.content, .dict false :: r⟩) b) : Same a b := by
  apply Same.of_some
  intro s
  by_cases hcomment : ∃ d, s.mode = .comment d
  · obtain ⟨mode, stack⟩ := s
    obtain ⟨d, rfl⟩ := hcomment
    rw [read_comment stack ((ha.commentAfter_eq d).trans hacomment),
      read_comment stack ((hb.commentAfter_eq d).trans hbcomment)]
  · by_cases hdict : ∃ r, s = ⟨.content, .dict false :: r⟩
    · obtain ⟨r, rfl⟩ := hdict
      exact hab r
    · have hmode : ∀ d, s.mode ≠ .comment d := fun d hd => hcomment ⟨d, hd⟩
      have hwaits : ∀ r, s ≠ ⟨.content, .dict false :: r⟩ := fun r hr => hdict ⟨r, hr⟩
      rw [ha.read_eq_none hmode hwaits, hb.read_eq_none hmode hwaits]

/-! ### Words in a text -/

/-- Places that words do not change: a text element, a comment, a declaration. -/
inductive Resting : Reader → Prop where
  | text (stack : List Frame) (h : holdsText stack = true) : Resting ⟨.content, stack⟩
  | comment (stack : List Frame) : Resting ⟨.comment 0, stack⟩
  | declaration (stack : List Frame) : Resting ⟨.declaration, stack⟩

/-- Words without markup, whose dashes are inside. -/
structure Words (t : List Char) : Prop where
  opens : '<' ∉ t
  closes : '>' ∉ t
  dashes : commentAfter 0 t = some 0

instance (t : List Char) : Decidable (Words t) :=
  decidable_of_iff ('<' ∉ t ∧ '>' ∉ t ∧ commentAfter 0 t = some 0)
    ⟨fun h => ⟨h.1, h.2.1, h.2.2⟩, fun h => ⟨h.opens, h.closes, h.dashes⟩⟩

theorem read_leaf {stack : List Frame} (hstack : holdsText stack = true) {t : List Char}
    (h : '<' ∉ t) : read (some ⟨.content, stack⟩) t = some ⟨.content, stack⟩ := by
  induction t with
  | nil => rfl
  | cons c t ih =>
    rw [List.mem_cons, not_or] at h
    rw [read_cons, next_content, if_neg fun hc => h.1 hc.symm, hstack]
    exact ih h.2

theorem read_declaration (stack : List Frame) {t : List Char} (hopens : '<' ∉ t)
    (hcloses : '>' ∉ t) : read (some ⟨.declaration, stack⟩) t = some ⟨.declaration, stack⟩ := by
  induction t with
  | nil => rfl
  | cons c t ih =>
    rw [List.mem_cons, not_or] at hopens hcloses
    rw [read_cons, next_declaration, if_neg fun hc => hopens.1 hc.symm,
      if_neg fun hc => hcloses.1 hc.symm]
    exact ih hopens.2 hcloses.2

theorem Resting.read {s : Reader} (hs : Resting s) {t : List Char} (ht : Words t) :
    read (some s) t = some s := by
  cases hs with
  | text stack h => exact read_leaf h ht.opens
  | comment stack => exact read_comment stack ht.dashes
  | declaration stack => exact read_declaration stack ht.opens ht.closes

/-- Words whose first two letters stand in no tag together: they stand only where they rest. -/
theorem read_words {c d : Char} {t : List Char} (hwords : Words (c :: d :: t))
    (hblank : isBlank c = false) (hdash : d ≠ '-')
    (hapart : ∀ w ∈ starts, c ∉ w ∨ d ∉ w) (s : Reader) :
    read (some s) (c :: d :: t) = none ∨
      ∃ s', read (some s) (c :: d :: t) = some s' ∧ Resting s' := by
  obtain ⟨mode, stack⟩ := s
  obtain ⟨hopens, hcloses, hdashes⟩ := hwords
  simp only [List.mem_cons, not_or] at hopens hcloses
  have hd : ∀ dashes, commentAfter dashes (d :: t) = commentAfter 0 t :=
    commentAfter_of_head hdash (Ne.symm hcloses.2.1) t
  have hc : ∀ dashes, commentAfter dashes (c :: d :: t) = commentAfter 0 t := by
    intro dashes
    rw [commentAfter]
    split
    · exact hd _
    · rw [if_neg fun h => hcloses.1 h.1.symm, hd]
  rw [hc] at hdashes
  cases mode with
  | content =>
    cases hstack : holdsText stack with
    | true =>
      refine Or.inr ⟨_, read_leaf hstack ?_, .text stack hstack⟩
      simp [hopens]
    | false =>
      left
      rw [read_cons, next_content, if_neg (Ne.symm hopens.1), if_neg, read_none]
      rw [hstack, hblank]
      decide
  | tag w =>
    rw [read_cons, next_tag (Ne.symm hcloses.1)]
    rcases inTag_cases stack (w ++ [c]) with hin | hin | hin | hin
    · rw [hin]
      exact Or.inl (read_none _)
    · rw [hin]
      exact Or.inr ⟨_, read_comment stack ((hd 0).trans hdashes), .comment stack⟩
    · rw [hin]
      refine Or.inr ⟨_, read_declaration stack ?_ ?_, .declaration stack⟩
      · simp [hopens]
      · simp [hcloses]
    · left
      rw [hin, read_cons, next_tag (Ne.symm hcloses.2.1), inTag_eq_none, read_none]
      intro u hu hsubset
      rcases hapart u hu with hfirst | hsecond
      · exact hfirst (hsubset (by simp))
      · exact hsecond (hsubset (by simp))
  | comment dashes =>
    exact Or.inr ⟨_, read_comment stack ((hc dashes).trans hdashes), .comment stack⟩
  | declaration =>
    refine Or.inr ⟨_, read_declaration stack ?_ ?_, .declaration stack⟩
    · simp [hopens]
    · simp [hcloses]

/-- More words may follow such words, or not. -/
theorem same_words_append {c d : Char} {t w : List Char} (hwords : Words (c :: d :: t))
    (hblank : isBlank c = false) (hdash : d ≠ '-') (hapart : ∀ w ∈ starts, c ∉ w ∨ d ∉ w)
    (hw : Words w) : Same (c :: d :: t ++ w) (c :: d :: t) := by
  apply Same.of_some
  intro s
  rw [read_append]
  rcases read_words hwords hblank hdash hapart s with hnone | ⟨s', hs', hrests⟩
  · rw [hnone, read_none]
  · rw [hs', hrests.read hw]

end Plist
