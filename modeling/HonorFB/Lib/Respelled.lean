import HonorFB.Lib.Content
import HonorFB.Lib.Occurrences
import Mathlib.Data.List.Forall2

/-!
# Edits of the texts of a list

An edit without markup, whose texts do the same to the reader, changes the texts of a list and
nothing else: afterwards the content has the same tags in turn, at paths whose keys are rewritten as
the texts are (`TextEdit.respelled`). Words that hold neither text of the edit stand where they
stood, and a string that stands alone at its path is rewritten as often as the old text stood there.
-/

namespace Plist

open Replace

/-! ## Rewriting a text -/

/-- The second text is the first with `n` of the places of the old text replaced. -/
inductive Rewritten (e : Edit Char) : Nat → List Char → List Char → Prop where
  | nil : Rewritten e 0 [] []
  | keep {n : Nat} {v v' : List Char} (c : Char) (h : Rewritten e n v v') :
      Rewritten e n (v ++ [c]) (v' ++ [c])
  | edit {n : Nat} {v v' : List Char} (h : Rewritten e n v v') :
      Rewritten e (n + 1) (v ++ e.old) (v' ++ e.new)

/-- The word holds neither text of the edit. -/
def Unmarked (e : Edit Char) (w : List Char) : Prop := ¬e.old <:+: w ∧ ¬e.new <:+: w

namespace Rewritten

variable {e : Edit Char} {n : Nat} {v v' : List Char}

theorem eq_of_zero (h : Rewritten e n v v') (hn : n = 0) : v = v' := by
  induction h with
  | nil => rfl
  | keep c h ih => rw [ih hn]
  | edit h ih => exact absurd hn (Nat.succ_ne_zero _)

theorem infix_of_ne_zero (h : Rewritten e n v v') (hn : n ≠ 0) : e.old <:+: v ∧ e.new <:+: v' := by
  induction h with
  | nil => exact absurd rfl hn
  | keep c h ih =>
    obtain ⟨hold, hnew⟩ := ih hn
    exact ⟨hold.trans (List.prefix_append _ _).isInfix, hnew.trans (List.prefix_append _ _).isInfix⟩
  | edit h ih => exact ⟨(List.suffix_append _ _).isInfix, (List.suffix_append _ _).isInfix⟩

theorem eq_iff (h : Rewritten e n v v') {w : List Char} (hw : Unmarked e w) : v = w ↔ v' = w := by
  by_cases hn : n = 0
  · rw [h.eq_of_zero hn]
  · obtain ⟨hold, hnew⟩ := h.infix_of_ne_zero hn
    refine iff_of_false ?_ ?_
    · rintro rfl
      exact hw.1 hold
    · rintro rfl
      exact hw.2 hnew

theorem split (h : Rewritten e n v v') (hn : n = 1) :
    ∃ pre post, v = pre ++ (e.old ++ post) ∧ v' = pre ++ (e.new ++ post) := by
  induction h with
  | nil => exact absurd hn Nat.zero_ne_one
  | keep c h ih =>
    obtain ⟨pre, post, rfl, rfl⟩ := ih hn
    refine ⟨pre, post ++ [c], ?_, ?_⟩
    · simp only [List.append_assoc]
    · simp only [List.append_assoc]
  | edit h ih =>
    rw [h.eq_of_zero (Nat.succ.inj hn)]
    exact ⟨_, [], by rw [List.append_nil], by rw [List.append_nil]⟩

theorem length (h : Rewritten e n v v') :
    v'.length + n * e.old.length = v.length + n * e.new.length := by
  induction h with
  | nil => rw [Nat.zero_mul, Nat.zero_mul]
  | keep c h ih =>
    rw [List.length_append, List.length_append, List.length_singleton]
    omega
  | edit h ih =>
    rw [List.length_append, List.length_append, Nat.add_mul, Nat.add_mul]
    omega

end Rewritten

/-- The keys of one path are those of the other, rewritten. -/
abbrev PathAlike (e : Edit Char) : Path → Path → Prop :=
  List.Forall₂ (Option.Rel fun v v' => ∃ n, Rewritten e n v v')

theorem PathAlike.eq_iff {e : Edit Char} {p p' : Path} (h : PathAlike e p p') :
    ∀ {w : Path}, (∀ v, some v ∈ w → Unmarked e v) → (p = w ↔ p' = w) := by
  induction h with
  | nil =>
    intro w _
    exact Iff.rfl
  | @cons q q' p p' hkey h ih =>
    intro w hw
    cases w with
    | nil => exact iff_of_false (List.cons_ne_nil _ _) (List.cons_ne_nil _ _)
    | cons u w =>
      rw [List.cons.injEq, List.cons.injEq, ih fun v hv => hw v (List.mem_cons_of_mem u hv)]
      refine and_congr_left' ?_
      cases hkey with
      | none => exact Iff.rfl
      | some hv =>
        obtain ⟨n, hv⟩ := hv
        cases u with
        | none => exact iff_of_false (Option.some_ne_none _) (Option.some_ne_none _)
        | some u =>
          rw [Option.some.injEq, Option.some.injEq]
          exact hv.eq_iff (hw u List.mem_cons_self)

/-- The event reads a text that is rewritten at `n` places. -/
structure Event.Alike (e : Edit Char) (n : Nat) (x x' : Event) : Prop where
  tag : x'.tag = x.tag
  path : PathAlike e x.path x'.path
  text : Rewritten e n x.text x'.text

/-- The keys and the text hold neither text of the edit. -/
def Event.Unmarked (e : Edit Char) (x : Event) : Prop :=
  (∀ v, some v ∈ x.path → Plist.Unmarked e v) ∧ Plist.Unmarked e x.text

theorem Event.Alike.eq_iff {e : Edit Char} {n : Nat} {x x' w : Event} (h : x.Alike e n x')
    (hw : w.Unmarked e) : x = w ↔ x' = w := by
  obtain ⟨tag, path, text⟩ := x
  obtain ⟨tag', path', text'⟩ := x'
  obtain ⟨wtag, wpath, wtext⟩ := w
  obtain ⟨htag, hpath, htext⟩ := h
  dsimp only at htag hpath htext
  rw [htag, Event.mk.injEq, Event.mk.injEq, hpath.eq_iff hw.1, htext.eq_iff hw.2]

/-! ## Rewriting the content -/

/-- The tag closes a string at the path. -/
def Event.isString (path : Path) (x : Event) : Bool :=
  decide (x.tag = .closes .string ∧ x.path = path)

theorem strings_singleton (path : Path) (x : Event) :
    strings path [x] = if x.isString path then [x.text] else [] := by
  unfold strings Event.isString
  rw [List.filterMap_cons, List.filterMap_nil]
  by_cases hstring : x.tag = .closes .string ∧ x.path = path
  · rw [if_pos hstring, decide_eq_true hstring]
    rfl
  · rw [if_neg hstring, decide_eq_false hstring]
    rfl

theorem Event.Alike.isString_eq {e : Edit Char} {n : Nat} {x x' : Event} (h : x.Alike e n x')
    {path : Path} (hpath : ∀ v, some v ∈ path → Plist.Unmarked e v) :
    x'.isString path = x.isString path := by
  have hiff := h.path.eq_iff hpath
  unfold isString
  rw [h.tag]
  simp only [hiff]

/-- One content is the other with its texts rewritten, those of the strings at the path at `n`
places in all. -/
inductive Respelled (e : Edit Char) (path : Path) : Nat → List Event → List Event → Prop where
  | nil : Respelled e path 0 [] []
  | cons {m n : Nat} {x x' : Event} {es es' : List Event} (hx : x.Alike e m x')
      (h : Respelled e path n es es') :
      Respelled e path ((if x.isString path then m else 0) + n) (x :: es) (x' :: es')

namespace Respelled

variable {e : Edit Char} {path : Path} {n n' : Nat} {es es' : List Event}

theorem append {fs fs' : List Event} (h : Respelled e path n es es')
    (h' : Respelled e path n' fs fs') : Respelled e path (n + n') (es ++ fs) (es' ++ fs') := by
  induction h with
  | nil =>
    rw [Nat.zero_add]
    exact h'
  | cons hx h ih =>
    rw [Nat.add_assoc]
    exact .cons hx ih

theorem begins_iff (h : Respelled e path n es es') :
    ∀ {w : List Event}, (∀ x ∈ w, x.Unmarked e) → (w <+: es' ↔ w <+: es) := by
  induction h with
  | nil =>
    intro w _
    exact Iff.rfl
  | cons hx h ih =>
    intro w hw
    cases w with
    | nil => exact iff_of_true List.nil_prefix List.nil_prefix
    | cons y w =>
      rw [List.forall_mem_cons] at hw
      rw [List.cons_prefix_cons, List.cons_prefix_cons, ih hw.2, eq_comm, ← hx.eq_iff hw.1,
        eq_comm]

/-- Words without a text of the edit stand where they stood. -/
theorem occurrences (h : Respelled e path n es es') {w : List Event}
    (hw : ∀ x ∈ w, x.Unmarked e) : Replace.occurrences w es' = Replace.occurrences w es := by
  induction h with
  | nil => rfl
  | cons hx h ih =>
    have hhere := (cons hx h).begins_iff hw
    rw [occurrences_cons, occurrences_cons, ih]
    simp only [hhere]

theorem strings_eq_nil (h : Respelled e path n es es') (hpath : ∀ v, some v ∈ path → Unmarked e v)
    (hes : strings path es = []) : n = 0 ∧ strings path es' = [] := by
  induction h with
  | nil => exact ⟨rfl, rfl⟩
  | cons hx h ih =>
    rw [strings_cons, strings_singleton] at hes
    rw [strings_cons, strings_singleton, hx.isString_eq hpath]
    split at hes
    · cases hes
    · next hstring =>
      obtain ⟨rfl, hnone⟩ := ih hes
      rw [if_neg hstring, if_neg hstring, hnone]
      exact ⟨rfl, rfl⟩

/-- The only string at the path is rewritten at all the places. -/
theorem strings_eq_singleton (h : Respelled e path n es es')
    (hpath : ∀ v, some v ∈ path → Unmarked e v) {v : List Char} (hes : strings path es = [v]) :
    ∃ v', strings path es' = [v'] ∧ Rewritten e n v v' := by
  induction h with
  | nil => cases hes
  | cons hx h ih =>
    rw [strings_cons, strings_singleton] at hes
    rw [strings_cons, strings_singleton, hx.isString_eq hpath]
    split at hes
    · next hstring =>
      obtain ⟨rfl, hrest⟩ := List.cons.inj hes
      obtain ⟨rfl, hnone⟩ := h.strings_eq_nil hpath hrest
      rw [if_pos hstring, if_pos hstring, hnone]
      exact ⟨_, rfl, hx.text⟩
    · next hstring =>
      rw [if_neg hstring, if_neg hstring, Nat.zero_add]
      exact ih hes

end Respelled

/-! ## Two cursors -/

namespace Cursor

/-- The cursors stand at one place of the two lists. Of the text `n` places are rewritten. -/
structure Alike (e : Edit Char) (n : Nat) (s s' : Cursor) : Prop where
  reader : s'.reader = s.reader
  path : PathAlike e s.path s'.path
  text : Rewritten e n s.text s'.text

/-- The cursor is in a string at the path. -/
def InString (s : Cursor) (path : Path) : Prop :=
  s.reader.stack.head? = some (.leaf .string) ∧ s.path = path

instance (s : Cursor) (path : Path) : Decidable (s.InString path) :=
  inferInstanceAs (Decidable (_ ∧ _))

/-- The places of the string at the path that was not closed yet. -/
def pending (path : Path) (s : Cursor) (n : Nat) : Nat := if s.InString path then n else 0

end Cursor

/-- Nothing is open inside a leaf. -/
def Topped (stack : List Frame) : Prop := ∀ f ∈ stack.tail, holdsText [f] = false

theorem Topped.apply {t : Tag} {stack stack' : List Frame} (htop : Topped stack)
    (h : t.apply stack = some stack') : Topped stack' := by
  cases t with
  | opens e =>
    obtain ⟨stack'', hplace, rfl⟩ := Option.map_eq_some_iff.1 h
    obtain ⟨f, f', r, rfl, rfl, -, hf'⟩ := place_eq hplace
    exact List.forall_mem_cons.2 ⟨hf', htop⟩
  | closes e =>
    rw [closes_eq h] at htop
    exact fun f hf => htop f (List.mem_of_mem_tail hf)
  | empty e =>
    obtain ⟨f, f', r, rfl, rfl, -, -⟩ := place_eq h
    exact htop

namespace Cursor

variable {e : Edit Char} {m : Nat} {s s' z : Cursor} {c : Char}

theorem pending_zero (path : Path) (s : Cursor) : s.pending path 0 = 0 := ite_self 0

theorem pending_of_not_leaf {path : Path}
    (h : ∀ f, s.reader.stack.head? = some f → holdsText [f] = false) : s.pending path m = 0 := by
  apply if_neg
  rintro ⟨hhead, -⟩
  exact Bool.noConfusion (h _ hhead)

theorem pending_of_head {path : Path} {f : Frame} {r : List Frame}
    (hstack : s.reader.stack = f :: r) (hf : holdsText [f] = false) : s.pending path m = 0 := by
  apply pending_of_not_leaf
  intro g hg
  rw [hstack, List.head?_cons, Option.some.injEq] at hg
  exact hg ▸ hf

theorem pending_congr {path : Path} (hstack : z.reader.stack = s.reader.stack)
    (hpath : z.path = s.path) : z.pending path m = s.pending path m := by
  have hiff : z.InString path ↔ s.InString path := by
    unfold InString
    rw [hstack, hpath]
  unfold pending
  simp only [hiff]

/-- A place is counted where the cursor reads the string. -/
theorem pending_inText (path : Path) (s : Cursor) (m : Nat) :
    s.pending path (if s.inText then m + 1 else m) =
      (if s.At (.leaf .string) path then 1 else 0) + s.pending path m := by
  by_cases hstring : s.InString path
  · obtain ⟨r, hr⟩ := List.head?_eq_some_iff.1 hstring.1
    have hin : s.inText = decide (s.reader.mode = .content) := by
      unfold inText
      rw [hr]
      exact Bool.and_true _
    have hat : s.At (.leaf .string) path ↔ s.reader.mode = .content := and_iff_left hstring
    unfold pending
    rw [if_pos hstring, if_pos hstring, hin]
    simp only [hat, decide_eq_true_iff]
    split <;> omega
  · have hat : ¬s.At (.leaf .string) path := fun hat => hstring hat.2
    unfold pending
    rw [if_neg hstring, if_neg hstring, if_neg hat]

/-- What is closed is counted. -/
theorem pending_closes {x : Element} {stack : List Frame} (path : Path)
    (hstack : s.reader.stack = x.closed :: stack) :
    (if (s.event (.closes x)).isString path then m else 0) = s.pending path m := by
  have hclosed : x.closed = .leaf .string ↔ x = .string := by
    cases x <;> simp [Element.closed]
  have hiff : (s.event (.closes x)).isString path = true ↔ s.InString path := by
    unfold Event.isString InString event
    rw [hstack, List.head?_cons, Option.some.injEq, hclosed, decide_eq_true_iff, Tag.closes.injEq]
  unfold pending
  simp only [hiff]

theorem Alike.inner (h : s.Alike e m s') : PathAlike e s.inner s'.inner := by
  unfold Cursor.inner
  rw [h.reader]
  split
  · exact .cons (.some ⟨m, h.text⟩) h.path
  · exact .cons .none h.path

theorem Alike.inText (h : s.Alike e m s') : s'.inText = s.inText := by
  unfold Cursor.inText
  rw [h.reader]

/-- One character keeps the cursors at one place, and what the string at the path has collected. -/
theorem Alike.next (h : s.Alike e m s') (htop : Topped s.reader.stack) (path : Path)
    (hz : s.next c = some z) :
    ∃ z' k d, s'.next c = some z' ∧ z.Alike e k z' ∧ Topped z.reader.stack ∧
      Respelled e path d (s.events c) (s'.events c) ∧
      d + z.pending path k = s.pending path m := by
  obtain ⟨r, hr, hnext⟩ := Option.bind_eq_some_iff.1 hz
  have hr' : Plist.next s'.reader c = some r := by
    rw [h.reader]
    exact hr
  have hcompleted : s'.completed c = s.completed c := by
    unfold completed
    rw [h.reader]
  cases htag : s.completed c with
  | none =>
    rw [htag] at hnext hcompleted
    have hstack := next_stack hr htag
    have hz' := next_eq_of_none hr' hcompleted
    rw [events_eq_nil_of_none htag, events_eq_nil_of_none hcompleted]
    rw [h.inText] at hz'
    obtain rfl := Option.some.inj hnext
    refine ⟨_, m, 0, hz', ⟨rfl, h.path, ?_⟩, ?_, .nil, ?_⟩
    · dsimp only
      split
      · exact .keep c h.text
      · exact h.text
    · dsimp only
      rw [hstack]
      exact htop
    · rw [Nat.zero_add]
      exact pending_congr hstack rfl
  | some t =>
    rw [htag] at hnext hcompleted
    obtain ⟨happly, -⟩ := next_tag hr htag
    have hz' := next_eq_of_tag hr' hcompleted
    rw [events_eq_of_tag hz htag]
    cases t with
    | opens x =>
      obtain ⟨stack, hplace, hstack⟩ := Option.map_eq_some_iff.1 happly
      obtain ⟨f, f', g, hf, rfl, hleaf, -⟩ := place_eq hplace
      obtain rfl := Option.some.inj hnext
      have hx : (s.event (.opens x)).Alike e 0 (s'.event (.opens x)) := ⟨rfl, h.inner, .nil⟩
      rw [events_eq_of_tag hz' hcompleted, pending_of_head hf hleaf]
      refine ⟨_, 0, _, hz', ⟨rfl, h.inner, .nil⟩, htop.apply happly, .cons hx .nil, ?_⟩
      rw [pending_zero, ite_self]
    | empty x =>
      obtain ⟨f, f', g, hf, -, hleaf, -⟩ := place_eq happly
      obtain rfl := Option.some.inj hnext
      have hx : (s.event (.empty x)).Alike e 0 (s'.event (.empty x)) := ⟨rfl, h.inner, .nil⟩
      rw [events_eq_of_tag hz' hcompleted, pending_of_head hf hleaf]
      refine ⟨_, 0, _, hz', ⟨rfl, h.path, .nil⟩, htop.apply happly, .cons hx .nil, ?_⟩
      rw [pending_zero, ite_self]
    | closes x =>
      have hstack := closes_eq happly
      have hpaths := h.path
      have hx : (s.event (.closes x)).Alike e m (s'.event (.closes x)) := ⟨rfl, h.path, h.text⟩
      simp only [behind] at hnext hz'
      split at hnext
      · cases hnext
      · next q p hp =>
        rw [hp] at hpaths
        obtain ⟨q', p', -, hp', hpath'⟩ := List.forall₂_cons_left_iff.1 hpaths
        simp only [hpath'] at hz'
        obtain rfl := Option.some.inj hnext
        rw [events_eq_of_tag hz' hcompleted]
        refine ⟨_, if x = .key then m else 0, _, hz', ⟨rfl, hp', ?_⟩, htop.apply happly,
          .cons hx .nil, ?_⟩
        · dsimp only
          split
          · exact h.text
          · exact .nil
        · have hinner : ∀ f, r.stack.head? = some f → holdsText [f] = false := by
            intro f hf
            rw [hstack] at htop
            exact htop f (List.mem_of_mem_head? hf)
          rw [pending_of_not_leaf (s := ⟨r, p, _⟩) hinner, Nat.add_zero]
          exact pending_closes path hstack

end Cursor

/-! ## The edit -/

/-- An edit between two words that do the same to the reader. -/
structure TextEdit (e : Edit Char) : Prop where
  same : Same e.new e.old
  opens : '<' ∉ e.old ∧ '<' ∉ e.new
  closes : '>' ∉ e.old ∧ '>' ∉ e.new
  solid : Clear e.old.tail e.old

/-- In a text the edit is one place more. -/
theorem TextEdit.follow {e : Edit Char} (h : TextEdit e) {m : Nat} {s s' z : Cursor}
    (hs : s.Alike e m s') (hz : Plist.follow (some s) e.old = some z) :
    ∃ z', Plist.follow (some s') e.new = some z' ∧
      z.Alike e (if s.inText then m + 1 else m) z' ∧ z.reader.stack = s.reader.stack ∧
      z.path = s.path := by
  rw [follow_words h.opens.1 h.closes.1] at hz
  obtain ⟨r, hr, rfl⟩ := Option.map_eq_some_iff.1 hz
  have hr' : read (some s'.reader) e.new = some r := by
    rw [hs.reader, h.same, hr]
  have hz' := follow_words h.opens.2 h.closes.2 s'
  rw [hr', Option.map_some, hs.inText] at hz'
  refine ⟨_, hz', ⟨rfl, hs.path, ?_⟩, read_stack h.closes.1 hr, rfl⟩
  dsimp only
  split
  · exact .edit hs.text
  · exact hs.text

/-- **What the edit does to the content**: it rewrites texts, that of the strings at the path as
often as the old text stands there. -/
theorem TextEdit.respelled {e : Edit Char} (h : TextEdit e) (path : Path) {end' : Cursor}
    (hend : end'.reader.stack.head? ≠ some (.leaf .string)) (t : List Char) :
    ∀ {s s' : Cursor} {m : Nat}, s.Alike e m s' → Topped s.reader.stack →
      Plist.follow (some s) t = some end' →
        ∃ n, Respelled e path n (content (some s) t) (content (some s') (e.replace t)) ∧
          n = standing (.leaf .string) path e.old (some s) t + s.pending path m := by
  rw [replace_eq]
  induction t using pass_induction [e] with
  | nil =>
    intro s s' m hs htop hfollow
    obtain rfl := Option.some.inj hfollow
    rw [applyAll_nil]
    refine ⟨0, .nil, ?_⟩
    have hnot : s.pending path m = 0 := if_neg fun hstring => hend hstring.1
    rw [hnot]
    rfl
  | hit f hf t hat ih =>
    intro s s' m hs htop hfollow
    obtain rfl := List.mem_singleton.1 hf
    rw [follow_append] at hfollow
    rw [applyAll_hit hat, content_append, content_append, content_eq_nil h.closes.1,
      content_eq_nil h.closes.2, List.nil_append, List.nil_append]
    cases hold : Plist.follow (some s) f.old with
    | none =>
      rw [hold, follow_none] at hfollow
      cases hfollow
    | some z =>
      rw [hold] at hfollow
      obtain ⟨z', hnew, hz, hstack, hpath⟩ := h.follow hs hold
      rw [hnew]
      obtain ⟨n, hn, hcount⟩ := ih hz (hstack ▸ htop) hfollow
      refine ⟨n, hn, ?_⟩
      rw [hcount, standing_self_append f.old_ne_nil h.solid, hold,
        Cursor.pending_congr hstack hpath, Cursor.pending_inText, Nat.add_assoc]
  | miss c t hat ih =>
    intro s s' m hs htop hfollow
    have hmiss := editAt_eq_none_iff.1 hat e (List.mem_singleton_self e)
    rw [follow_cons] at hfollow
    cases hnext : s.next c with
    | none =>
      rw [hnext, follow_none] at hfollow
      cases hfollow
    | some z =>
      rw [hnext] at hfollow
      obtain ⟨z', k, d, hnext', hz, htop', hhere, hd⟩ := hs.next htop path hnext
      obtain ⟨n, hn, hcount⟩ := ih t List.suffix_rfl hz htop' hfollow
      rw [applyAll_miss hat, content_cons, content_cons, hnext, hnext',
        standing_cons_of_miss hmiss, hnext]
      refine ⟨d + n, hhere.append hn, ?_⟩
      omega

end Plist
