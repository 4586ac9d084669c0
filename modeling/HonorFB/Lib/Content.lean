import HonorFB.Lib.Plist

/-!
# The content of XML property lists

What a list holds: its tags in turn, each with the keys its element stands under and the text it
closes (`content`). Blanks, comments and declarations are no part of it. A `Cursor` is a reader that
knows where it stands; it is stuck on no list that is well formed (`WellFormed.follow`), and what is
open outside changes nothing but the paths (`Reads.lift`).
-/

namespace Plist

/-- The keys an element stands under, its own first; `none` in an array and at the top. -/
abbrev Path := List (Option (List Char))

/-- A tag, where its element stands, and the text it closes. -/
structure Event where
  tag : Tag
  path : Path
  text : List Char
  deriving DecidableEq, Repr

/-- A reader that knows where the innermost element stands that is open. The text is what it has
read of a leaf, or the key that waits for its value. -/
structure Cursor where
  reader : Reader
  path : Path
  text : List Char
  deriving DecidableEq, Repr

namespace Cursor

/-- Before the list. -/
def start : Cursor := ⟨⟨.content, [.document false]⟩, [], []⟩

/-- Where an element stands that begins here. -/
def inner (s : Cursor) : Path :=
  match s.reader.stack with
  | .dict true :: _ => some s.text :: s.path
  | _ => none :: s.path

/-- The tag that the character completes. -/
def completed (s : Cursor) (c : Char) : Option Tag :=
  match s.reader.mode with
  | .tag read => if c = '>' then Tag.all.find? fun t => t.text == read else none
  | _ => none

def event (s : Cursor) : Tag → Event
  | .closes e => ⟨.closes e, s.path, s.text⟩
  | t => ⟨t, s.inner, []⟩

/-- Behind a tag. A key is kept for its value. -/
def behind (s : Cursor) (r : Reader) : Tag → Option Cursor
  | .opens _ => some ⟨r, s.inner, []⟩
  | .empty _ => some ⟨r, s.path, []⟩
  | .closes e =>
    match s.path with
    | [] => none
    | _ :: path => some ⟨r, path, if e = .key then s.text else []⟩

/-- The next character is text of a leaf, unless it begins a tag. -/
def inText (s : Cursor) : Bool := decide (s.reader.mode = .content) && holdsText s.reader.stack

def next (s : Cursor) (c : Char) : Option Cursor :=
  (Plist.next s.reader c).bind fun r =>
    match s.completed c with
    | some t => s.behind r t
    | none => some ⟨r, s.path, if s.inText && decide (c ≠ '<') then s.text ++ [c] else s.text⟩

/-- What the character completes, where it can stand. -/
def events (s : Cursor) (c : Char) : List Event :=
  if (s.next c).isSome then ((s.completed c).map s.event).toList else []

end Cursor

def follow (s : Option Cursor) (t : List Char) : Option Cursor :=
  t.foldl (fun s c => s.bind fun s => s.next c) s

def content : Option Cursor → List Char → List Event
  | some s, c :: t => s.events c ++ content (s.next c) t
  | _, _ => []

/-- The content of a whole list. -/
def contents (t : List Char) : List Event := content (some .start) t

/-- The texts of the strings at a path. -/
def strings (path : Path) (es : List Event) : List (List Char) :=
  es.filterMap fun e => if e.tag = .closes .string ∧ e.path = path then some e.text else none

/-- The cursor stands in an element at this path, and in none inside. -/
def Cursor.At (s : Cursor) (f : Frame) (path : Path) : Prop :=
  s.reader.mode = .content ∧ s.reader.stack.head? = some f ∧ s.path = path

instance (s : Cursor) (f : Frame) (path : Path) : Decidable (s.At f path) :=
  inferInstanceAs (Decidable (_ ∧ _ ∧ _))

/-- At how many places where the cursor is at the path the word stands. -/
def standing (f : Frame) (path : Path) (word : List Char) : Option Cursor → List Char → Nat
  | some s, c :: t =>
    standing f path word (s.next c) t + if s.At f path ∧ word <+: c :: t then 1 else 0
  | _, _ => 0

/-! ## Reading on -/

@[simp] theorem follow_none (t : List Char) : follow none t = none := by
  induction t with
  | nil => rfl
  | cons c t ih => exact ih

@[simp] theorem content_none (t : List Char) : content none t = [] := by
  cases t <;> rfl

@[simp] theorem content_nil (s : Option Cursor) : content s [] = [] := by
  cases s <;> rfl

@[simp] theorem standing_none (f : Frame) (path : Path) (word t : List Char) :
    standing f path word none t = 0 := by
  cases t <;> rfl

theorem follow_cons (s : Cursor) (c : Char) (t : List Char) :
    follow (some s) (c :: t) = follow (s.next c) t := rfl

theorem content_cons (s : Cursor) (c : Char) (t : List Char) :
    content (some s) (c :: t) = s.events c ++ content (s.next c) t := rfl

theorem follow_append (s : Option Cursor) (a b : List Char) :
    follow s (a ++ b) = follow (follow s a) b := List.foldl_append

theorem content_append (a b : List Char) : ∀ s,
    content s (a ++ b) = content s a ++ content (follow s a) b := by
  induction a with
  | nil =>
    intro s
    rw [content_nil]
    rfl
  | cons c a ih =>
    intro s
    cases s with
    | none => rw [content_none, content_none, follow_none, content_none, List.append_nil]
    | some s =>
      rw [List.cons_append, content_cons, content_cons, follow_cons, ih, List.append_assoc]

theorem strings_cons (path : Path) (x : Event) (es : List Event) :
    strings path (x :: es) = strings path [x] ++ strings path es :=
  List.filterMap_append (l := [x])

theorem strings_append (path : Path) (es es' : List Event) :
    strings path (es ++ es') = strings path es ++ strings path es' := List.filterMap_append

/-- From one cursor the text leads to the other, with these events. -/
def Reads (s : Cursor) (t : List Char) (es : List Event) (s' : Cursor) : Prop :=
  follow (some s) t = some s' ∧ content (some s) t = es

/-- The text cannot stand here, and completes nothing before it fails. -/
def Sticks (s : Cursor) (t : List Char) : Prop :=
  follow (some s) t = none ∧ content (some s) t = []

theorem Reads.nil (s : Cursor) : Reads s [] [] s := ⟨rfl, rfl⟩

theorem Reads.append {s s' s'' : Cursor} {a b : List Char} {es es' : List Event}
    (h : Reads s a es s') (h' : Reads s' b es' s'') : Reads s (a ++ b) (es ++ es') s'' := by
  constructor
  · rw [follow_append, h.1, h'.1]
  · rw [content_append, h.1, h.2, h'.2]

theorem Reads.content_append {s s' : Cursor} {a : List Char} {es : List Event}
    (h : Reads s a es s') (b : List Char) :
    content (some s) (a ++ b) = es ++ content (some s') b := by
  rw [Plist.content_append, h.1, h.2]

theorem Sticks.content_append {s : Cursor} {a : List Char} (h : Sticks s a) (b : List Char) :
    content (some s) (a ++ b) = [] := by
  rw [Plist.content_append, h.1, h.2, content_none, List.append_nil]

instance (s s' : Cursor) (t : List Char) (es : List Event) : Decidable (Reads s t es s') :=
  inferInstanceAs (Decidable (_ ∧ _))

theorem standing_append {f : Frame} {path : Path} {word a : List Char}
    (h : Replace.Clear a word) (t : List Char) : ∀ s,
    standing f path word s (a ++ t) = standing f path word (follow s a) t := by
  induction a with
  | nil => intro s; rfl
  | cons c a ih =>
    intro s
    cases s with
    | none => rw [standing_none, follow_none, standing_none]
    | some s =>
      have hnot := h.not_begins t
      rw [List.cons_append] at hnot ⊢
      rw [standing, if_neg fun hhere => hnot hhere.2, Nat.add_zero, ih h.tail, follow_cons]

/-- A word that cannot begin inside itself. -/
theorem standing_self_append {f : Frame} {path : Path} {word : List Char} (hword : word ≠ [])
    (h : Replace.Clear word.tail word) (t : List Char) (s : Cursor) :
    standing f path word (some s) (word ++ t) =
      standing f path word (follow (some s) word) t + if s.At f path then 1 else 0 := by
  obtain ⟨c, p, rfl⟩ := List.exists_cons_of_ne_nil hword
  rw [List.tail_cons] at h
  have hhit : c :: p <+: c :: (p ++ t) := List.prefix_append (c :: p) t
  rw [List.cons_append, standing, follow_cons, standing_append h]
  simp only [hhit, and_true]

theorem standing_cons_of_miss {f : Frame} {path : Path} {word t : List Char} {c : Char}
    (h : ¬word <+: c :: t) (s : Cursor) :
    standing f path word (some s) (c :: t) = standing f path word (s.next c) t := by
  rw [standing, if_neg fun hhere => h hhere.2, Nat.add_zero]

/-! ## The reader of the cursor -/

theorem Cursor.next_reader {s s' : Cursor} {c : Char} (h : s.next c = some s') :
    Plist.next s.reader c = some s'.reader := by
  obtain ⟨r, hr, hnext⟩ := Option.bind_eq_some_iff.1 h
  rw [hr]
  cases htag : s.completed c with
  | none =>
    rw [htag] at hnext
    rw [← Option.some.inj hnext]
  | some t =>
    rw [htag] at hnext
    cases t with
    | opens e => rw [← Option.some.inj hnext]
    | empty e => rw [← Option.some.inj hnext]
    | closes e =>
      simp only [behind] at hnext
      split at hnext
      · cases hnext
      · rw [← Option.some.inj hnext]

theorem follow_reader (t : List Char) : ∀ {s s' : Cursor}, follow (some s) t = some s' →
    read (some s.reader) t = some s'.reader := by
  induction t with
  | nil =>
    intro s s' h
    cases h
    rfl
  | cons c t ih =>
    intro s s' h
    rw [follow_cons] at h
    cases hnext : s.next c with
    | none =>
      rw [hnext, follow_none] at h
      cases h
    | some z =>
      rw [hnext] at h
      rw [read_cons, Cursor.next_reader hnext]
      exact ih h

theorem follow_eq_none {s : Cursor} {t : List Char} (h : read (some s.reader) t = none) :
    follow (some s) t = none := by
  cases hfollow : follow (some s) t with
  | none => rfl
  | some z =>
    rw [follow_reader t hfollow] at h
    cases h

/-! ## One key for each element that is open -/

/-- One key for each element that is open. -/
def Cursor.Level (s : Cursor) : Prop := s.path.length + 1 = s.reader.stack.length

theorem turn_holdsText {e : Element} {f f' : Frame} (h : turn e f = some f') :
    holdsText [f] = false ∧ holdsText [f'] = false := by
  unfold turn at h
  split at h <;> cases h <;> exact ⟨rfl, rfl⟩

theorem place_eq {e : Element} {stack stack' : List Frame} (h : place e stack = some stack') :
    ∃ f f' r, stack = f :: r ∧ stack' = f' :: r ∧ holdsText [f] = false ∧
      holdsText [f'] = false := by
  cases stack with
  | nil => cases h
  | cons f r =>
    obtain ⟨f', hf', rfl⟩ := Option.map_eq_some_iff.1 h
    exact ⟨f, f', r, rfl, rfl, turn_holdsText hf'⟩

theorem place_length {e : Element} {stack stack' : List Frame} (h : place e stack = some stack') :
    stack'.length = stack.length := by
  obtain ⟨f, f', r, rfl, rfl, -⟩ := place_eq h
  rfl

theorem closes_eq {e : Element} {stack stack' : List Frame}
    (h : (Tag.closes e).apply stack = some stack') : stack = e.closed :: stack' := by
  cases stack with
  | nil => cases h
  | cons f r =>
    by_cases hf : f = e.closed
    · obtain rfl := Option.some.inj ((if_pos hf).symm.trans h)
      rw [hf]
    · have hnone := (if_neg hf).symm.trans h
      cases hnone

theorem closes_length {e : Element} {stack stack' : List Frame}
    (h : (Tag.closes e).apply stack = some stack') : stack.length = stack'.length + 1 :=
  congrArg List.length (closes_eq h)

namespace Cursor

variable {s s' : Cursor} {c : Char} {r : Reader}

theorem completed_eq_none (hc : c ≠ '>') : s.completed c = none := by
  unfold completed
  split
  · exact if_neg hc
  · rfl

/-- A character that completes no tag leaves open what is open. -/
theorem next_stack (h : Plist.next s.reader c = some r) (htag : s.completed c = none) :
    r.stack = s.reader.stack := by
  obtain ⟨⟨mode, stack⟩, path, text⟩ := s
  cases mode with
  | content =>
    simp only [Plist.next] at h
    split at h
    · cases h; rfl
    · split at h
      · cases h; rfl
      · cases h
  | tag t =>
    simp only [Plist.next] at h
    split at h
    · next hc =>
      simp only [completed, if_pos hc] at htag
      rw [htag] at h
      cases h
    · rcases inTag_cases stack (t ++ [c]) with hin | hin | hin | hin <;> rw [hin] at h <;> cases h
      · rfl
      · rfl
      · rfl
  | comment dashes =>
    simp only [Plist.next] at h
    split at h
    · cases h; rfl
    · split at h <;> cases h <;> rfl
  | declaration =>
    simp only [Plist.next] at h
    split at h
    · cases h
    · split at h <;> cases h <;> rfl

theorem next_tag {t : Tag} (h : Plist.next s.reader c = some r) (htag : s.completed c = some t) :
    t.apply s.reader.stack = some r.stack ∧ r.mode = .content := by
  obtain ⟨⟨mode, stack⟩, path, text⟩ := s
  cases mode with
  | tag w =>
    simp only [completed] at htag
    split at htag
    · next hc =>
      simp only [Plist.next, if_pos hc] at h
      rw [htag, Option.bind_some] at h
      obtain ⟨stack', hstack', rfl⟩ := Option.map_eq_some_iff.1 h
      exact ⟨hstack', rfl⟩
    · cases htag
  | content => cases htag
  | comment dashes => cases htag
  | declaration => cases htag

theorem next_eq_of_none (h : Plist.next s.reader c = some r) (htag : s.completed c = none) :
    s.next c =
      some ⟨r, s.path, if s.inText && decide (c ≠ '<') then s.text ++ [c] else s.text⟩ := by
  rw [next, h, Option.bind_some, htag]

theorem next_eq_of_tag {t : Tag} (h : Plist.next s.reader c = some r)
    (htag : s.completed c = some t) : s.next c = s.behind r t := by
  rw [next, h, Option.bind_some, htag]

theorem events_eq_nil_of_none (htag : s.completed c = none) : s.events c = [] := by
  rw [events, htag]
  split <;> rfl

theorem events_eq_of_tag {t : Tag} (h : s.next c = some s') (htag : s.completed c = some t) :
    s.events c = [s.event t] := by
  rw [events, h, htag]
  rfl

theorem inner_length (s : Cursor) : s.inner.length = s.path.length + 1 := by
  unfold inner
  split <;> rfl

theorem next_level (hlevel : s.Level) (h : s.next c = some s') : s'.Level := by
  obtain ⟨r, hr, hnext⟩ := Option.bind_eq_some_iff.1 h
  unfold Level at hlevel ⊢
  cases htag : s.completed c with
  | none =>
    rw [htag] at hnext
    rw [← Option.some.inj hnext, next_stack hr htag]
    exact hlevel
  | some t =>
    obtain ⟨happly, -⟩ := next_tag hr htag
    rw [htag] at hnext
    cases t with
    | opens e =>
      obtain ⟨stack', hplace, hstack⟩ := Option.map_eq_some_iff.1 happly
      rw [← Option.some.inj hnext]
      dsimp only
      rw [inner_length, ← hstack, List.length_cons, place_length hplace, hlevel]
    | empty e =>
      rw [← Option.some.inj hnext]
      dsimp only
      rw [place_length happly, hlevel]
    | closes e =>
      have hlength := closes_length happly
      simp only [behind] at hnext
      split at hnext
      · cases hnext
      · next hpath =>
        rw [hpath, List.length_cons] at hlevel
        rw [← Option.some.inj hnext]
        dsimp only
        omega

end Cursor

/-! ## No list sticks -/

/-- The document is open outermost. -/
def Rooted (stack : List Frame) : Prop := ∃ full, stack.getLast? = some (.document full)

theorem turn_document {e : Element} {full : Bool} {f : Frame}
    (h : turn e (.document full) = some f) : ∃ full', f = .document full' := by
  cases full <;> cases e <;> simp only [turn, reduceCtorEq, Option.some.injEq] at h
  exact ⟨true, h.symm⟩

theorem place_rooted {e : Element} {stack stack' : List Frame} (h : place e stack = some stack')
    (hrooted : Rooted stack) : Rooted stack' := by
  cases stack with
  | nil => cases h
  | cons f r =>
    obtain ⟨f', hf', rfl⟩ := Option.map_eq_some_iff.1 h
    cases r with
    | nil =>
      obtain ⟨full, hfull⟩ := hrooted
      obtain rfl := Option.some.inj hfull
      obtain ⟨full', rfl⟩ := turn_document hf'
      exact ⟨full', rfl⟩
    | cons g r => exact hrooted

/-- No tag closes the document. -/
theorem closes_rooted {e : Element} {stack stack' : List Frame}
    (h : (Tag.closes e).apply stack = some stack') (hrooted : Rooted stack) :
    stack' ≠ [] ∧ Rooted stack' := by
  cases stack with
  | nil => cases h
  | cons f r =>
    by_cases hf : f = e.closed
    · obtain rfl := Option.some.inj ((if_pos hf).symm.trans h)
      cases r with
      | nil =>
        obtain ⟨full, hfull⟩ := hrooted
        obtain rfl := Option.some.inj hfull
        cases e <;> cases hf
      | cons g r => exact ⟨List.cons_ne_nil g r, hrooted⟩
    · have hnone := (if_neg hf).symm.trans h
      cases hnone

/-- Where the reader can go on, so can the cursor. -/
theorem Cursor.next_of_reader {s : Cursor} {c : Char} {r : Reader} (hlevel : s.Level)
    (hrooted : Rooted s.reader.stack) (h : Plist.next s.reader c = some r) :
    ∃ s', s.next c = some s' ∧ s'.reader = r ∧ Rooted r.stack := by
  cases htag : s.completed c with
  | none => exact ⟨_, next_eq_of_none h htag, rfl, next_stack h htag ▸ hrooted⟩
  | some t =>
    rw [next_eq_of_tag h htag]
    obtain ⟨happly, -⟩ := next_tag h htag
    cases t with
    | opens e =>
      obtain ⟨stack', hplace, hr⟩ := Option.map_eq_some_iff.1 happly
      obtain ⟨full, hfull⟩ := place_rooted hplace hrooted
      refine ⟨_, rfl, rfl, full, ?_⟩
      rw [← hr, List.getLast?_cons, hfull]
      rfl
    | empty e => exact ⟨_, rfl, rfl, place_rooted happly hrooted⟩
    | closes e =>
      have hlength := closes_length happly
      obtain ⟨hne, hkeeps⟩ := closes_rooted happly hrooted
      have hpos := List.length_pos_of_ne_nil hne
      unfold Level at hlevel
      obtain ⟨q, path, hpath⟩ : ∃ q path, s.path = q :: path := by
        apply List.exists_cons_of_ne_nil
        intro hnil
        rw [hnil, List.length_nil] at hlevel
        omega
      refine ⟨⟨r, path, if e = .key then s.text else []⟩, ?_, rfl, hkeeps⟩
      simp only [behind, hpath]

theorem follow_of_read (t : List Char) : ∀ {s : Cursor} {r : Reader}, s.Level →
    Rooted s.reader.stack → read (some s.reader) t = some r →
      ∃ s', follow (some s) t = some s' ∧ s'.reader = r := by
  induction t with
  | nil =>
    intro s r _ _ h
    cases h
    exact ⟨s, rfl, rfl⟩
  | cons c t ih =>
    intro s r hlevel hrooted h
    rw [read_cons] at h
    cases hnext : Plist.next s.reader c with
    | none =>
      rw [hnext, read_none] at h
      cases h
    | some r' =>
      rw [hnext] at h
      obtain ⟨s', hs', hreader, hrooted'⟩ := Cursor.next_of_reader hlevel hrooted hnext
      subst hreader
      rw [follow_cons, hs']
      exact ih (Cursor.next_level hlevel hs') hrooted' h

/-- **A cursor reads a list that is well formed to its end.** -/
theorem WellFormed.follow {t : List Char} (h : WellFormed t) :
    ∃ s, Plist.follow (some .start) t = some s ∧ s.reader = ⟨.content, [.document true]⟩ :=
  follow_of_read t rfl ⟨false, rfl⟩ h

/-! ## What is open outside -/

/-- The cursor in a list in which more is open. -/
def Cursor.lift (s : Cursor) (r : List Frame) (p : Path) : Cursor :=
  ⟨⟨s.reader.mode, s.reader.stack ++ r⟩, s.path ++ p, s.text⟩

def Event.lift (p : Path) (e : Event) : Event := ⟨e.tag, e.path ++ p, e.text⟩

namespace Cursor

variable {s s' : Cursor} {c : Char}

theorem Level.stack (h : s.Level) : ∃ f r, s.reader.stack = f :: r := by
  apply List.exists_cons_of_ne_nil
  intro hnil
  unfold Level at h
  rw [hnil] at h
  cases h

theorem inner_lift (h : s.Level) (r : List Frame) (p : Path) :
    (s.lift r p).inner = s.inner ++ p := by
  obtain ⟨⟨mode, stack⟩, path, text⟩ := s
  obtain ⟨f, g, hstack⟩ := h.stack
  dsimp only at hstack
  subst hstack
  cases f with
  | dict due => cases due <;> rfl
  | _ => rfl

theorem inText_lift (h : s.Level) (r : List Frame) (p : Path) :
    (s.lift r p).inText = s.inText := by
  obtain ⟨⟨mode, stack⟩, path, text⟩ := s
  obtain ⟨f, g, hstack⟩ := h.stack
  dsimp only at hstack
  subst hstack
  cases f <;> rfl

theorem event_lift (h : s.Level) (r : List Frame) (p : Path) (t : Tag) :
    (s.lift r p).event t = (s.event t).lift p := by
  have hinner := inner_lift h r p
  cases t with
  | opens e => exact congrArg (Event.mk _ · []) hinner
  | closes e => rfl
  | empty e => exact congrArg (Event.mk _ · []) hinner

theorem next_lift (hlevel : s.Level) (h : s.next c = some s') (r : List Frame) (p : Path) :
    (s.lift r p).next c = some (s'.lift r p) ∧
      (s.lift r p).events c = (s.events c).map (Event.lift p) := by
  obtain ⟨⟨mode, stack⟩, hread, hnext⟩ := Option.bind_eq_some_iff.1 h
  have hread' : Plist.next (s.lift r p).reader c = some ⟨mode, stack ++ r⟩ := next_append hread r
  cases htag : s.completed c with
  | none =>
    have htag' : (s.lift r p).completed c = none := htag
    rw [htag] at hnext
    constructor
    · rw [next_eq_of_none hread' htag', ← Option.some.inj hnext, inText_lift hlevel]
      rfl
    · rw [events_eq_nil_of_none htag', events_eq_nil_of_none htag, List.map_nil]
  | some t =>
    have htag' : (s.lift r p).completed c = some t := htag
    rw [htag] at hnext
    have hlifted : (s.lift r p).next c = some (s'.lift r p) := by
      rw [next_eq_of_tag hread' htag']
      cases t with
      | opens e =>
        rw [← Option.some.inj hnext]
        simp only [behind, inner_lift hlevel]
        rfl
      | empty e =>
        rw [← Option.some.inj hnext]
        rfl
      | closes e =>
        simp only [behind] at hnext ⊢
        split at hnext
        · cases hnext
        · next hpath =>
          have hpath' := congrArg (· ++ p) hpath
          rw [← Option.some.inj hnext]
          simp only [lift, hpath', List.cons_append]
    refine ⟨hlifted, ?_⟩
    rw [events_eq_of_tag hlifted htag', events_eq_of_tag h htag, event_lift hlevel]
    rfl

end Cursor

/-- **What is open outside changes nothing but the paths.** -/
theorem Reads.lift {t : List Char} : ∀ {s s' : Cursor} {es : List Event}, Reads s t es s' →
    s.Level → ∀ r p, Reads (s.lift r p) t (es.map (Event.lift p)) (s'.lift r p) := by
  induction t with
  | nil =>
    intro s s' es h _ r p
    obtain ⟨hfollow, rfl⟩ := h
    obtain rfl := Option.some.inj hfollow
    exact ⟨rfl, rfl⟩
  | cons c t ih =>
    intro s s' es h hlevel r p
    obtain ⟨hfollow, rfl⟩ := h
    rw [follow_cons] at hfollow
    cases hnext : s.next c with
    | none =>
      rw [hnext, follow_none] at hfollow
      cases hfollow
    | some z =>
      rw [hnext] at hfollow
      obtain ⟨hnext', hevents⟩ := Cursor.next_lift hlevel hnext r p
      obtain ⟨hrest, hcontent⟩ := ih ⟨hfollow, rfl⟩ (Cursor.next_level hlevel hnext) r p
      constructor
      · rw [follow_cons, hnext', hrest]
      · rw [content_cons, content_cons, hnext', hnext, hevents, hcontent, List.map_append]

/-! ## Words -/

theorem read_stack {w : List Char} (h : '>' ∉ w) : ∀ {r r' : Reader},
    read (some r) w = some r' → r'.stack = r.stack := by
  induction w with
  | nil =>
    intro r r' hread
    cases hread
    rfl
  | cons c w ih =>
    intro r r' hread
    rw [List.mem_cons, not_or] at h
    rw [read_cons] at hread
    cases hnext : next r c with
    | none =>
      rw [hnext, read_none] at hread
      cases hread
    | some z =>
      rw [hnext] at hread
      have hstack := Cursor.next_stack (s := ⟨r, [], []⟩) hnext
        (Cursor.completed_eq_none (Ne.symm h.1))
      exact (ih h.2 hread).trans hstack

theorem content_eq_nil {t : List Char} (h : '>' ∉ t) : ∀ s, content s t = [] := by
  induction t with
  | nil => exact content_nil
  | cons c t ih =>
    intro s
    rw [List.mem_cons, not_or] at h
    cases s with
    | none => rfl
    | some s =>
      have htag : s.completed c = none := Cursor.completed_eq_none (Ne.symm h.1)
      rw [content_cons, Cursor.events_eq_nil_of_none htag, ih h.2]
      rfl

/-- A tag that cannot be completed is none. -/
theorem content_of_last {s : Cursor} {t : List Char} (h : '>' ∉ t)
    (hfail : follow (some s) (t ++ ['>']) = none) : content (some s) (t ++ ['>']) = [] := by
  rw [content_append, content_eq_nil h, List.nil_append]
  rw [follow_append] at hfail
  cases hfollow : follow (some s) t with
  | none => exact content_none _
  | some z =>
    rw [hfollow, follow_cons] at hfail
    have hnone : z.next '>' = none := hfail
    rw [content_cons, Cursor.events, hnone]
    rfl

/-- No word leads into a text or out of it. -/
theorem next_inText {s : Cursor} {c : Char} {r : Reader} (hopen : c ≠ '<') (hclose : c ≠ '>')
    (h : next s.reader c = some r) (p : Path) (w : List Char) :
    Cursor.inText ⟨r, p, w⟩ = s.inText := by
  obtain ⟨⟨mode, stack⟩, path, text⟩ := s
  cases mode with
  | content =>
    rw [next_content, if_neg hopen] at h
    split at h <;> cases h
    rfl
  | tag t =>
    rw [next_tag hclose] at h
    rcases inTag_cases stack (t ++ [c]) with hin | hin | hin | hin <;> rw [hin] at h <;> cases h <;>
      rfl
  | comment dashes =>
    simp only [next] at h
    split at h
    · cases h; rfl
    · rw [if_neg fun hc => hclose hc.1] at h
      cases h
      rfl
  | declaration =>
    rw [next_declaration, if_neg hopen, if_neg hclose] at h
    cases h
    rfl

theorem follow_words {w : List Char} (hopens : '<' ∉ w) (hcloses : '>' ∉ w) : ∀ s : Cursor,
    follow (some s) w = (read (some s.reader) w).map fun r =>
      ⟨r, s.path, if s.inText then s.text ++ w else s.text⟩ := by
  induction w with
  | nil =>
    intro s
    rw [List.append_nil, ite_self]
    rfl
  | cons c w ih =>
    intro s
    rw [List.mem_cons, not_or] at hopens hcloses
    have htag : s.completed c = none := Cursor.completed_eq_none (Ne.symm hcloses.1)
    rw [follow_cons, read_cons]
    cases hnext : next s.reader c with
    | none =>
      have hnone : s.next c = none := by
        unfold Cursor.next
        rw [hnext]
        rfl
      rw [hnone, follow_none, read_none]
      rfl
    | some r =>
      have hhere : decide (c ≠ '<') = true := decide_eq_true (Ne.symm hopens.1)
      rw [Cursor.next_eq_of_none hnext htag, hhere, Bool.and_true]
      rw [ih hopens.2 hcloses.2, next_inText (Ne.symm hopens.1) (Ne.symm hcloses.1) hnext]
      cases s.inText with
      | true => simp only [if_true, List.append_assoc, List.singleton_append]
      | false => rfl

theorem reads_leaf {stack : List Frame} (h : holdsText stack = true) {w : List Char}
    (hopens : '<' ∉ w) (hcloses : '>' ∉ w) (p : Path) (text : List Char) :
    Reads ⟨⟨.content, stack⟩, p, text⟩ w [] ⟨⟨.content, stack⟩, p, text ++ w⟩ := by
  have hin : Cursor.inText ⟨⟨.content, stack⟩, p, text⟩ = true := h
  refine ⟨?_, content_eq_nil hcloses _⟩
  rw [follow_words hopens hcloses, hin]
  dsimp only
  rw [read_leaf h hopens]
  rfl

theorem reads_comment {t : List Char} (stack : List Frame) (p : Path) (w : List Char) :
    ∀ {dashes d : Nat}, commentAfter dashes t = some d →
      Reads ⟨⟨.comment dashes, stack⟩, p, w⟩ t [] ⟨⟨.comment d, stack⟩, p, w⟩ := by
  induction t with
  | nil =>
    intro dashes d h
    cases h
    exact Reads.nil _
  | cons c t ih =>
    intro dashes d h
    have htag : Cursor.completed ⟨⟨.comment dashes, stack⟩, p, w⟩ c = none := rfl
    have hstep : ∀ d', next ⟨.comment dashes, stack⟩ c = some ⟨.comment d', stack⟩ →
        commentAfter d' t = some d →
        Reads ⟨⟨.comment dashes, stack⟩, p, w⟩ (c :: t) [] ⟨⟨.comment d, stack⟩, p, w⟩ := by
      intro d' hnext hafter
      obtain ⟨hfollow, hcontent⟩ := ih hafter
      constructor
      · rw [follow_cons, Cursor.next_eq_of_none hnext htag]
        exact hfollow
      · rw [content_cons, Cursor.next_eq_of_none hnext htag, Cursor.events_eq_nil_of_none htag]
        exact hcontent
    simp only [commentAfter] at h
    split at h
    · next hc => exact hstep (dashes + 1) (if_pos hc) h
    · next hc =>
      split at h
      · cases h
      · next hend => exact hstep 0 ((if_neg hc).trans (if_neg hend)) h

end Plist
