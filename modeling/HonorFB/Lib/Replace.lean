import Mathlib.Data.List.Infix
import Mathlib.Data.List.Induction
import Mathlib.Data.List.Pairwise
import Mathlib.Data.List.Perm.Basic

/-!
# Replacing several texts in one

`Edit.replace` puts one text in the place of another wherever it stands, from left to right and
without overlap, as the string libraries do. Replacements made one after the other can disturb each
other: an inserted text may hold, complete or break another text that is still to be replaced. Where
none can begin inside another (`Clear`, `Edit.Apart`), the order does not matter and the result is
that of one pass for all of them (`foldl_replace_eq`), which cuts the text into the pieces it keeps
and the edits it makes (`pieces`).
-/

namespace Replace

variable {α : Type*}

/-- A text to be replaced, which is not empty, and its replacement. -/
structure Edit (α : Type*) where
  old : List α
  new : List α
  old_ne_nil : old ≠ []
  deriving DecidableEq

/-- `b` begins at no place of `a`, whatever stands behind `a`. -/
def Clear (a b : List α) : Prop := ∀ s, s <:+ a → s ≠ [] → ¬(s <+: b ∨ b <+: s)

theorem comparable_of_append {a b c : List α} (h : a ++ c <+: b ∨ b <+: a ++ c) :
    a <+: b ∨ b <+: a := by
  rcases h with h | h
  · exact Or.inl ((List.prefix_append a c).trans h)
  · exact List.prefix_or_prefix_of_prefix (List.prefix_append a c) h

theorem Clear.suffix {a a' b : List α} (h : Clear a b) (ha : a' <:+ a) : Clear a' b :=
  fun s hs => h s (hs.trans ha)

theorem Clear.not_begins {c : α} {a b : List α} (h : Clear (c :: a) b) (s : List α) :
    ¬b <+: c :: a ++ s := fun hb =>
  h _ List.suffix_rfl (List.cons_ne_nil c a) (comparable_of_append (Or.inr hb))

theorem Clear.tail {c : α} {a b : List α} (h : Clear (c :: a) b) : Clear a b :=
  h.suffix (List.suffix_cons c a)

/-- A text that is clear of itself is empty. -/
theorem Clear.ne {a b : List α} (h : Clear a b) (hne : a ≠ []) : a ≠ b := by
  rintro rfl
  exact h a List.suffix_rfl hne (Or.inl List.prefix_rfl)

theorem clear_nil (b : List α) : Clear [] b := fun _ hs hne => absurd (List.suffix_nil.1 hs) hne

theorem Clear.cons {c : α} {a b : List α} (hhere : ¬(c :: a <+: b ∨ b <+: c :: a))
    (h : Clear a b) : Clear (c :: a) b := by
  intro s hs hne
  rcases List.suffix_cons_iff.1 hs with rfl | hs
  · exact hhere
  · exact h s hs hne

theorem Clear.of_tail {a b : List α} (hhere : ¬(a <+: b ∨ b <+: a)) (h : Clear a.tail b) :
    Clear a b := by
  cases a with
  | nil => exact clear_nil b
  | cons c a => exact Clear.cons hhere h

/-- A suffix of two texts is one of the second, or reaches into the first. -/
theorem suffix_append_cases {s a b : List α} (h : s <:+ a ++ b) :
    s <:+ b ∨ ∃ a', a' <:+ a ∧ a' ≠ [] ∧ s = a' ++ b := by
  induction a with
  | nil => exact Or.inl h
  | cons c a ih =>
    rw [List.cons_append, List.suffix_cons_iff] at h
    rcases h with rfl | h
    · exact Or.inr ⟨c :: a, List.suffix_rfl, List.cons_ne_nil c a, rfl⟩
    · rcases ih h with h | ⟨a', ha', hne, rfl⟩
      · exact Or.inl h
      · exact Or.inr ⟨a', ha'.trans (List.suffix_cons c a), hne, rfl⟩

theorem Clear.append {a a' b : List α} (h : Clear a b) (h' : Clear a' b) : Clear (a ++ a') b := by
  intro s hs hne
  rcases suffix_append_cases hs with hs | ⟨r, hr, hrne, rfl⟩
  · exact h' s hs hne
  · exact fun hcomparable => h r hr hrne (comparable_of_append hcomparable)

/-- A text behind something it cannot begin in stands wholly behind it. -/
theorem suffix_of_clear {a w s t : List α} (h : Clear a w) (hsuffix : w ++ s <:+ a ++ t) :
    w ++ s <:+ t := by
  rcases suffix_append_cases hsuffix with hsuffix | ⟨r, hr, hne, heq⟩
  · exact hsuffix
  · have hbegins : w <+: r ++ t := heq ▸ List.prefix_append w s
    exact absurd (comparable_of_append (Or.inr hbegins)) (h r hr hne)

theorem not_infix_append {a b w : List α} (h : Clear a w) (hb : ¬w <:+: b) : ¬w <:+: a ++ b := by
  rintro ⟨pre, post, heq⟩
  have hsuffix : w ++ post <:+ a ++ b := ⟨pre, by rw [← heq, List.append_assoc]⟩
  exact hb ((List.prefix_append w post).isInfix.trans (suffix_of_clear h hsuffix).isInfix)

theorem append_suffix_append_iff {w r s : List α} (hne : w ≠ []) (h : Clear w.tail w) :
    w ++ r <:+ w ++ s ↔ r = s ∨ w ++ r <:+ s := by
  obtain ⟨c, p, rfl⟩ := List.exists_cons_of_ne_nil hne
  rw [List.tail_cons] at h
  constructor
  · intro hsuffix
    rcases List.suffix_cons_iff.1 hsuffix with heq | hsuffix
    · exact Or.inl (List.append_cancel_left heq)
    · exact Or.inr (suffix_of_clear h hsuffix)
  · rintro (rfl | hsuffix)
    · exact List.suffix_rfl
    · exact hsuffix.trans (List.suffix_append _ _)

/-- Two places of a text that cannot begin inside itself are one, or apart. -/
theorem eq_or_infix_of_append_eq {w pre post pre' post' : List α} (hne : w ≠ [])
    (h : Clear w.tail w) (heq : pre ++ (w ++ post) = pre' ++ (w ++ post')) :
    (pre = pre' ∧ post = post') ∨ w <:+: pre ∨ w <:+: post := by
  have hhere : w ++ post <:+ pre' ++ (w ++ post') := heq ▸ List.suffix_append pre (w ++ post)
  rcases List.suffix_or_suffix_of_suffix hhere (List.suffix_append pre' (w ++ post')) with hs | hs
  · rcases (append_suffix_append_iff hne h).1 hs with rfl | ⟨u, rfl⟩
    · exact Or.inl ⟨List.append_cancel_right heq, rfl⟩
    · -- the second place is before the first
      have hpre : pre = pre' ++ (w ++ u) := by
        refine List.append_cancel_right (?_ : pre ++ (w ++ post) = _ ++ (w ++ post))
        rw [heq]
        simp only [List.append_assoc]
      exact Or.inr (Or.inl (hpre ▸ ⟨pre', u, List.append_assoc _ _ _⟩))
  · rcases (append_suffix_append_iff hne h).1 hs with rfl | ⟨u, rfl⟩
    · exact Or.inl ⟨List.append_cancel_right heq, rfl⟩
    · exact Or.inr (Or.inr ⟨u, post', List.append_assoc _ _ _⟩)

theorem Clear.longer {a b b' : List α} (h : Clear a b) (hb : b <+: b') : Clear a b' := by
  intro s hs hne hcomparable
  refine h s hs hne ?_
  rcases hcomparable with hsb | hbs
  · exact List.prefix_or_prefix_of_prefix hsb hb
  · exact Or.inr (hb.trans hbs)

theorem clear_of_head?_not_mem {c : α} {a b : List α} (hb : b.head? = some c) (h : c ∉ a) :
    Clear a b := by
  obtain ⟨t, rfl⟩ := List.head?_eq_some_iff.1 hb
  intro s hs hne hcomparable
  obtain ⟨d, s, rfl⟩ := List.exists_cons_of_ne_nil hne
  have hhead : d = c := by
    rcases hcomparable with hbegins | hbegins
    · exact (List.cons_prefix_cons.1 hbegins).1
    · exact (List.cons_prefix_cons.1 hbegins).1.symm
  exact h (hhead ▸ hs.mem List.mem_cons_self)

theorem head?_eq_of_begins {a b : List α} (hne : a ≠ []) (h : a <+: b) : a.head? = b.head? := by
  obtain ⟨s, rfl⟩ := h
  exact (List.head?_append_of_ne_nil a hne).symm

/-- A text is clear of `b`, if it does not hold it and something that `b` lacks follows. -/
theorem clear_append_guard {g : α} {a r b : List α} (hg : g ∉ b) (ha : ¬b <:+: a)
    (h : Clear (g :: r) b) : Clear (a ++ g :: r) b := by
  intro s hs hne
  rcases suffix_append_cases hs with hs | ⟨a', ha', _, rfl⟩
  · exact h s hs hne
  · rintro (hsb | hbs)
    · exact hg (hsb.mem (List.mem_append_right a' List.mem_cons_self))
    · rcases List.prefix_or_prefix_of_prefix hbs (List.prefix_append a' (g :: r)) with hb | ⟨u, rfl⟩
      · exact ha (hb.isInfix.trans ha'.isInfix)
      · rw [List.prefix_append_right_inj] at hbs
        cases u with
        | nil => exact ha (by simpa using ha'.isInfix)
        | cons d u =>
          rw [(List.cons_prefix_cons.1 hbs).1] at hg
          exact hg (List.mem_append_right a' List.mem_cons_self)

/-- What stands before the first `g` is determined. -/
theorem eq_of_guard {g : α} {a a' r r' : List α} (ha : g ∉ a) (ha' : g ∉ a')
    (h : a ++ g :: r <+: a' ++ g :: r') : a = a' := by
  induction a generalizing a' with
  | nil =>
    cases a' with
    | nil => rfl
    | cons d a' => exact absurd ((List.cons_prefix_cons.1 h).1 ▸ List.mem_cons_self) ha'
  | cons c a ih =>
    cases a' with
    | nil => exact absurd ((List.cons_prefix_cons.1 h).1 ▸ List.mem_cons_self) ha
    | cons d a' =>
      obtain ⟨rfl, htail⟩ := List.cons_prefix_cons.1 h
      rw [List.mem_cons, not_or] at ha ha'
      rw [ih ha.2 ha'.2 htail]

namespace Edit

/-- Neither edit's texts can begin inside the text the other replaces, nor the reverse. -/
structure Apart (e f : Edit α) : Prop where
  oldOld : Clear e.old f.old
  oldNew : Clear e.old f.new
  newOld : Clear e.new f.old
  oldOld' : Clear f.old e.old
  oldNew' : Clear f.old e.new
  newOld' : Clear f.new e.old

theorem Apart.symm {e f : Edit α} (h : Apart e f) : Apart f e :=
  ⟨h.oldOld', h.oldNew', h.newOld', h.oldOld, h.oldNew, h.newOld⟩

instance : Std.Symm (Apart (α := α)) := ⟨fun _ _ => Apart.symm⟩

/-- Behind its head neither text of the edit has a place where the old one can begin, nor the old
one a place where the new can. -/
structure Solid (e : Edit α) : Prop where
  new_ne_nil : e.new ≠ []
  oldOld : Clear e.old.tail e.old
  oldNew : Clear e.old.tail e.new
  newOld : Clear e.new.tail e.old

end Edit

theorem old_append_eq_cons (e : Edit α) (s : List α) :
    ∃ c t, e.old ++ s = c :: t ∧ t.drop (e.old.length - 1) = s := by
  obtain ⟨c, p, hold⟩ := List.exists_cons_of_ne_nil e.old_ne_nil
  refine ⟨c, p ++ s, ?_, ?_⟩
  · rw [hold, List.cons_append]
  · rw [hold, List.length_cons, Nat.add_sub_cancel, List.drop_left]

section Pass

variable [DecidableEq α]

/-- One of the two texts begins the other. -/
def comparable : List α → List α → Bool
  | [], _ => true
  | _, [] => true
  | c :: a, d :: b => decide (c = d) && comparable a b

theorem comparable_iff {a b : List α} : comparable a b = true ↔ a <+: b ∨ b <+: a := by
  fun_induction comparable a b with
  | case1 b => simp
  | case2 a => simp
  | case3 c a d b ih =>
    rw [Bool.and_eq_true, decide_eq_true_iff, ih, List.cons_prefix_cons, List.cons_prefix_cons,
      eq_comm (a := d), ← and_or_left]

def clear (b : List α) : List α → Bool
  | [] => true
  | c :: a => !comparable (c :: a) b && clear b a

theorem clear_iff {a b : List α} : clear b a = true ↔ Clear a b := by
  induction a with
  | nil => simp [clear, clear_nil]
  | cons c a ih =>
    rw [clear, Bool.and_eq_true, ih, Bool.not_eq_true', ← Bool.not_eq_true, comparable_iff]
    refine ⟨fun h => Clear.cons h.1 h.2, fun h => ⟨?_, h.tail⟩⟩
    exact h (c :: a) List.suffix_rfl (List.cons_ne_nil c a)

instance (a b : List α) : Decidable (Clear a b) := decidable_of_iff _ clear_iff

namespace Edit

/-- Goes through the text; the next `skip` places belong to a text already replaced. -/
def replaceFrom (e : Edit α) : Nat → List α → List α
  | _, [] => []
  | skip + 1, _ :: t => e.replaceFrom skip t
  | 0, c :: t =>
    if e.old.isPrefixOf (c :: t) then e.new ++ e.replaceFrom (e.old.length - 1) t
    else c :: e.replaceFrom 0 t

def replace (e : Edit α) (t : List α) : List α := e.replaceFrom 0 t

end Edit

/-! ## One pass for several edits -/

inductive Piece (α : Type*) where
  | keep (c : α)
  | edit (e : Edit α)

namespace Piece

def before : Piece α → List α
  | keep c => [c]
  | edit e => e.old

def after : Piece α → List α
  | keep c => [c]
  | edit e => e.new

def edit? : Piece α → Option (Edit α)
  | keep _ => none
  | edit e => some e

end Piece

def editAt (es : List (Edit α)) (t : List α) : Option (Edit α) :=
  es.find? fun e => e.old.isPrefixOf t

/-- The text cut into edits, where one applies, and kept elements. -/
def pieces (es : List (Edit α)) : List α → List (Piece α)
  | [] => []
  | c :: t =>
    match editAt es (c :: t) with
    | some e => .edit e :: pieces es (t.drop (e.old.length - 1))
    | none => .keep c :: pieces es t
  termination_by t => t.length
  decreasing_by
    · rw [List.length_drop, List.length_cons]
      omega
    · exact Nat.lt_succ_self _

def applyAll (es : List (Edit α)) (t : List α) : List α := (pieces es t).flatMap Piece.after

theorem editAt_mem {es : List (Edit α)} {t : List α} {e : Edit α} (h : editAt es t = some e) :
    e ∈ es ∧ e.old <+: t := by
  have hfound : e.old.isPrefixOf t = true :=
    List.find?_some (p := fun e : Edit α => e.old.isPrefixOf t) h
  exact ⟨List.mem_of_find?_eq_some h, List.isPrefixOf_iff_prefix.1 hfound⟩

theorem editAt_eq_none_iff {es : List (Edit α)} {t : List α} :
    editAt es t = none ↔ ∀ e ∈ es, ¬e.old <+: t := by
  unfold editAt
  simp only [List.find?_eq_none, List.isPrefixOf_iff_prefix]

@[simp] theorem pieces_nil (es : List (Edit α)) : pieces es [] = [] := by
  rw [pieces]

theorem pieces_hit {es : List (Edit α)} {e : Edit α} {s : List α}
    (h : editAt es (e.old ++ s) = some e) : pieces es (e.old ++ s) = .edit e :: pieces es s := by
  obtain ⟨c, t, hsplit, hdrop⟩ := old_append_eq_cons e s
  rw [hsplit] at h ⊢
  rw [pieces, h]
  simp only [hdrop]

theorem pieces_miss {es : List (Edit α)} {c : α} {t : List α} (h : editAt es (c :: t) = none) :
    pieces es (c :: t) = .keep c :: pieces es t := by
  rw [pieces, h]

/-- Induction along the pass: an edit is passed as a whole, and what is kept one by one. -/
theorem pass_induction (es : List (Edit α)) {P : List α → Prop} (nil : P [])
    (hit : ∀ e ∈ es, ∀ s, editAt es (e.old ++ s) = some e → P s → P (e.old ++ s))
    (miss : ∀ c t, editAt es (c :: t) = none → (∀ s, s <:+ t → P s) → P (c :: t)) :
    ∀ t, P t := by
  have hshort : ∀ n, ∀ t : List α, t.length ≤ n → P t := by
    intro n
    induction n with
    | zero =>
      intro t ht
      rw [List.length_eq_zero_iff.1 (Nat.le_zero.1 ht)]
      exact nil
    | succ n ih =>
      intro t ht
      cases t with
      | nil => exact nil
      | cons c t =>
        rw [List.length_cons] at ht
        cases hat : editAt es (c :: t) with
        | none => exact miss c t hat fun s hs => ih s (Nat.le_trans hs.length_le (by omega))
        | some e =>
          obtain ⟨hmem, s, hs⟩ := editAt_mem hat
          have hpos := List.length_pos_of_ne_nil e.old_ne_nil
          have hlength := congrArg List.length hs
          rw [List.length_append, List.length_cons] at hlength
          rw [← hs] at hat ⊢
          exact hit e hmem s hat (ih s (by omega))
  exact fun t => hshort t.length t (Nat.le_refl _)

theorem pieces_before (es : List (Edit α)) (t : List α) :
    (pieces es t).flatMap Piece.before = t := by
  induction t using pass_induction es with
  | nil => simp
  | hit e _ s hat ih => rw [pieces_hit hat, List.flatMap_cons, ih, Piece.before]
  | miss c t hat ih =>
    rw [pieces_miss hat, List.flatMap_cons, ih t (List.suffix_refl t), Piece.before]
    rfl

theorem applyAll_nil (es : List (Edit α)) : applyAll es [] = [] := by
  simp [applyAll]

theorem applyAll_hit {es : List (Edit α)} {e : Edit α} {s : List α}
    (h : editAt es (e.old ++ s) = some e) : applyAll es (e.old ++ s) = e.new ++ applyAll es s := by
  unfold applyAll
  rw [pieces_hit h, List.flatMap_cons, Piece.after]

theorem applyAll_miss {es : List (Edit α)} {c : α} {t : List α} (h : editAt es (c :: t) = none) :
    applyAll es (c :: t) = c :: applyAll es t := by
  unfold applyAll
  rw [pieces_miss h, List.flatMap_cons, Piece.after]
  rfl

/-! ## What a pass leaves alone -/

theorem editAt_of_clear {es : List (Edit α)} {c : α} {a : List α}
    (h : ∀ e ∈ es, Clear (c :: a) e.old) (s : List α) : editAt es (c :: a ++ s) = none :=
  editAt_eq_none_iff.2 fun e he => (h e he).not_begins s

theorem applyAll_append {es : List (Edit α)} {a : List α} (h : ∀ e ∈ es, Clear a e.old)
    (s : List α) : applyAll es (a ++ s) = a ++ applyAll es s := by
  induction a with
  | nil => rfl
  | cons c a ih =>
    have hmiss := editAt_of_clear h s
    rw [List.cons_append] at hmiss ⊢
    rw [applyAll_miss hmiss, ih fun e he => (h e he).tail, List.cons_append]

/-- What begins the result began the text: it can neither be inserted nor completed. -/
theorem begins_of_begins_applyAll {es : List (Edit α)} (t : List α) :
    ∀ {p : List α}, (∀ e ∈ es, Clear p e.new) → p <+: applyAll es t → p <+: t := by
  induction t using pass_induction es with
  | nil =>
    intro p _ h
    rwa [applyAll_nil] at h
  | hit e he s hat ih =>
    intro p hp h
    rw [applyAll_hit hat] at h
    by_contra hnot
    have hne : p ≠ [] := by
      rintro rfl
      exact hnot List.nil_prefix
    refine hp e he p List.suffix_rfl hne (Or.symm (comparable_of_append (Or.inr h)))
  | miss c t hat ih =>
    intro p hp h
    rw [applyAll_miss hat] at h
    cases p with
    | nil => exact List.nil_prefix
    | cons d p =>
      rw [List.cons_prefix_cons] at h ⊢
      exact ⟨h.1, ih t List.suffix_rfl (fun e he => (hp e he).tail) h.2⟩

theorem begins_applyAll_iff {es : List (Edit α)} {p : List α} (hold : ∀ e ∈ es, Clear p e.old)
    (hnew : ∀ e ∈ es, Clear p e.new) (t : List α) : p <+: applyAll es t ↔ p <+: t := by
  refine ⟨begins_of_begins_applyAll t hnew, ?_⟩
  rintro ⟨s, rfl⟩
  rw [applyAll_append hold]
  exact List.prefix_append _ _

/-! ## One after the other -/

theorem replaceFrom_append (e : Edit α) (a t : List α) :
    e.replaceFrom a.length (a ++ t) = e.replaceFrom 0 t := by
  induction a with
  | nil => rfl
  | cons c a ih => exact ih

theorem replace_eq (e : Edit α) (t : List α) : e.replace t = applyAll [e] t := by
  unfold Edit.replace
  induction t using pass_induction [e] with
  | nil =>
    rw [applyAll_nil]
    rfl
  | hit f hf s hat ih =>
    obtain rfl := List.mem_singleton.1 hf
    rw [applyAll_hit hat, ← ih]
    obtain ⟨c, p, hold⟩ := List.exists_cons_of_ne_nil f.old_ne_nil
    have hhit : f.old.isPrefixOf (f.old ++ s) = true :=
      List.isPrefixOf_iff_prefix.2 (List.prefix_append _ _)
    have hskip := replaceFrom_append f p s
    rw [hold] at hhit ⊢
    rw [List.cons_append] at hhit ⊢
    rw [Edit.replaceFrom, hold, if_pos hhit, List.length_cons, Nat.add_sub_cancel, hskip]
  | miss c t hat ih =>
    have hmiss : ¬e.old.isPrefixOf (c :: t) = true := fun h =>
      editAt_eq_none_iff.1 hat e (List.mem_singleton_self e) (List.isPrefixOf_iff_prefix.1 h)
    rw [applyAll_miss hat, ← ih t List.suffix_rfl, Edit.replaceFrom, if_neg hmiss]

theorem editAt_concat (es : List (Edit α)) (e : Edit α) (t : List α) :
    editAt (es ++ [e]) t = (editAt es t).or (editAt [e] t) :=
  List.find?_append

/-- Replacing one text more after a pass is a pass with one edit more. -/
theorem replace_applyAll {es : List (Edit α)} {e : Edit α} (h : ∀ f ∈ es, f.Apart e)
    (t : List α) : e.replace (applyAll es t) = applyAll (es ++ [e]) t := by
  have hinserted : ∀ f ∈ es, ∀ x ∈ [e], Clear f.new x.old := by
    intro f hf x hx
    obtain rfl := List.mem_singleton.1 hx
    exact (h f hf).newOld
  rw [replace_eq]
  induction t using pass_induction es with
  | nil => rw [applyAll_nil, applyAll_nil, applyAll_nil]
  | hit f hf s hat ih =>
    have hat' : editAt (es ++ [e]) (f.old ++ s) = some f := by
      rw [editAt_concat, hat]
      rfl
    rw [applyAll_hit hat, applyAll_append (hinserted f hf), ih, applyAll_hit hat']
  | miss c t hat ih =>
    by_cases hold : e.old <+: c :: t
    · obtain ⟨s, hs⟩ := hold
      have hone : editAt [e] (e.old ++ applyAll es s) = some e := by
        simp [editAt, List.isPrefixOf_iff_prefix]
      have hat' : editAt (es ++ [e]) (e.old ++ s) = some e := by
        rw [editAt_concat, hs, hat, ← hs]
        simp [editAt, List.isPrefixOf_iff_prefix]
      have hshort : s <:+ t := by
        obtain ⟨d, p, hold⟩ := List.exists_cons_of_ne_nil e.old_ne_nil
        rw [hold, List.cons_append] at hs
        exact ⟨p, (List.cons.inj hs).2⟩
      rw [← hs, applyAll_append (fun f hf => (h f hf).oldOld'), applyAll_hit hone, ih s hshort,
        applyAll_hit hat']
    · -- a text that was not there is not there after the pass either
      have hone : editAt [e] (c :: applyAll es t) = none := by
        refine editAt_eq_none_iff.2 fun x hx hbegins => hold ?_
        obtain rfl := List.mem_singleton.1 hx
        have hreflect := begins_of_begins_applyAll (c :: t) (fun f hf => (h f hf).oldNew')
        rw [applyAll_miss hat] at hreflect
        exact hreflect hbegins
      have hat' : editAt (es ++ [e]) (c :: t) = none := by
        refine editAt_eq_none_iff.2 fun x hx => ?_
        rcases List.mem_append.1 hx with hx | hx
        · exact editAt_eq_none_iff.1 hat x hx
        · rwa [List.mem_singleton.1 hx]
      rw [applyAll_miss hat, applyAll_miss hone, ih t List.suffix_rfl, applyAll_miss hat']

theorem applyAll_no_edits (t : List α) : applyAll [] t = t := by
  induction t with
  | nil => exact applyAll_nil _
  | cons c t ih => rw [applyAll_miss rfl, ih]

/-- **Replacements whose texts stay apart amount to one pass.** -/
theorem foldl_replace_eq {es : List (Edit α)} (h : es.Pairwise Edit.Apart) (t : List α) :
    es.foldl (fun t e => e.replace t) t = applyAll es t := by
  induction es using List.reverseRecOn with
  | nil => exact (applyAll_no_edits t).symm
  | append_singleton es e ih =>
    rw [List.pairwise_append] at h
    rw [List.foldl_append, ih h.1]
    exact replace_applyAll (fun f hf => h.2.2 f hf e (List.mem_singleton_self e)) t

/-- Where the texts stay apart, one edit at most applies at a place. -/
theorem editAt_eq_some_iff {es : List (Edit α)} (h : es.Pairwise Edit.Apart) {t : List α}
    {e : Edit α} : editAt es t = some e ↔ e ∈ es ∧ e.old <+: t := by
  refine ⟨editAt_mem, fun ⟨he, hbegins⟩ => ?_⟩
  cases hat : editAt es t with
  | none => exact absurd hbegins (editAt_eq_none_iff.1 hat e he)
  | some f =>
    obtain ⟨hf, hbegins'⟩ := editAt_mem hat
    by_contra hne
    have hapart := h.forall hf he fun heq => hne (congrArg some heq)
    exact hapart.oldOld f.old List.suffix_rfl f.old_ne_nil
      (List.prefix_or_prefix_of_prefix hbegins' hbegins)

theorem applyAll_perm {es es' : List (Edit α)} (h : es.Pairwise Edit.Apart) (hperm : es.Perm es')
    (t : List α) : applyAll es t = applyAll es' t := by
  have h' : es'.Pairwise Edit.Apart := h.perm hperm fun hapart => hapart.symm
  have hat : ∀ s, editAt es s = editAt es' s := by
    intro s
    apply Option.ext
    intro e
    rw [editAt_eq_some_iff h, editAt_eq_some_iff h', hperm.mem_iff]
  induction t using pass_induction es with
  | nil => rw [applyAll_nil, applyAll_nil]
  | hit e _ s he ih => rw [applyAll_hit he, ih, applyAll_hit ((hat _).symm.trans he)]
  | miss c t he ih =>
    rw [applyAll_miss he, ih t List.suffix_rfl, applyAll_miss ((hat _).symm.trans he)]

/-- **Their order does not matter.** -/
theorem foldl_replace_perm {es es' : List (Edit α)} (h : es.Pairwise Edit.Apart)
    (hperm : es'.Perm es) (t : List α) :
    es'.foldl (fun t e => e.replace t) t = es.foldl (fun t e => e.replace t) t := by
  have h' : es'.Pairwise Edit.Apart := h.perm hperm.symm fun hapart => hapart.symm
  rw [foldl_replace_eq h, foldl_replace_eq h', applyAll_perm h' hperm]

end Pass

end Replace
