import HonorFB.Lib.Replace
import Mathlib.Data.List.Nodup

/-!
# Counting what replacements leave

How often a text occurs decides what its replacement does. An edit is made as often as its text
occurs (`count_made`), and afterwards its text stands only where what follows an edit restores it
(`occurrences_old_applyAll_eq_zero_iff`).
-/

namespace Replace

variable {α : Type*} [DecidableEq α]

/-- How many places of the text the word stands at. -/
def occurrences (word t : List α) : Nat := t.tails.countP fun s => word.isPrefixOf s

theorem occurrences_nil {word : List α} (hword : word ≠ []) : occurrences word [] = 0 := by
  cases word with
  | nil => exact absurd rfl hword
  | cons c word => rfl

theorem occurrences_cons (word : List α) (c : α) (t : List α) :
    occurrences word (c :: t) = occurrences word t + if word <+: c :: t then 1 else 0 := by
  unfold occurrences
  rw [List.tails_cons, List.countP_cons]
  simp only [List.isPrefixOf_iff_prefix]

theorem occurrences_cons_of_miss {word : List α} {c : α} {t : List α}
    (h : ¬word <+: c :: t) : occurrences word (c :: t) = occurrences word t := by
  rw [occurrences_cons, if_neg h, Nat.add_zero]

theorem occurrences_append {word a : List α} (h : Clear a word) (s : List α) :
    occurrences word (a ++ s) = occurrences word s := by
  induction a with
  | nil => rfl
  | cons c a ih =>
    have hnot := h.not_begins s
    rw [List.cons_append] at hnot ⊢
    rw [occurrences_cons_of_miss hnot, ih h.tail]

/-- A word that cannot begin inside itself stands once at the head of the text it begins. -/
theorem occurrences_self_append {word : List α} (hword : word ≠ []) (h : Clear word.tail word)
    (s : List α) : occurrences word (word ++ s) = occurrences word s + 1 := by
  obtain ⟨c, p, rfl⟩ := List.exists_cons_of_ne_nil hword
  have hhit : c :: p <+: c :: (p ++ s) := List.prefix_append (c :: p) s
  rw [List.cons_append, occurrences_cons, if_pos hhit]
  exact congrArg (· + 1) (occurrences_append h s)

/-- Of a family of words that differ in their heads, each stands at its own head only. -/
theorem occurrences_own {ι : Type*} [DecidableEq ι] {w : ι → List α} (hne : ∀ i, w i ≠ [])
    (hhead : ∀ i j, (w i).head? = (w j).head? → i = j) (hclear : ∀ i j, Clear (w i).tail (w j))
    (i j : ι) (s : List α) :
    occurrences (w j) (w i ++ s) = occurrences (w j) s + if i = j then 1 else 0 := by
  by_cases hij : i = j
  · subst hij
    rw [occurrences_self_append (hne i) (hclear i i), if_pos rfl]
  · have hhere : ¬(w i <+: w j ∨ w j <+: w i) := by
      rintro (hbegins | hbegins)
      · exact hij (hhead i j (head?_eq_of_begins (hne i) hbegins))
      · exact hij (hhead j i (head?_eq_of_begins (hne j) hbegins)).symm
    rw [occurrences_append (Clear.of_tail hhere (hclear i j)), if_neg hij, Nat.add_zero]

theorem occurrences_append_eq_zero_iff {word a : List α} (hne : a ≠ []) (h : Clear a.tail word)
    (s : List α) :
    occurrences word (a ++ s) = 0 ↔ ¬word <+: a ++ s ∧ occurrences word s = 0 := by
  obtain ⟨c, p, rfl⟩ := List.exists_cons_of_ne_nil hne
  rw [List.tail_cons] at h
  rw [List.cons_append, occurrences_cons, occurrences_append h, Nat.add_eq_zero_iff, and_comm]
  refine and_congr_left' ?_
  by_cases hbegins : word <+: c :: (p ++ s) <;> simp [hbegins]

theorem occurrences_eq_zero_iff {word t : List α} :
    occurrences word t = 0 ↔ ∀ s, s <:+ t → ¬word <+: s := by
  unfold occurrences
  simp only [List.countP_eq_zero, List.mem_tails, List.isPrefixOf_iff_prefix]

theorem replace_of_occurrences_eq_zero {e : Edit α} {t : List α}
    (h : occurrences e.old t = 0) : e.replace t = t := by
  have hnone := occurrences_eq_zero_iff.1 h
  rw [replace_eq]
  induction t with
  | nil => exact applyAll_nil _
  | cons c t ih =>
    have hmiss : editAt [e] (c :: t) = none := by
      refine editAt_eq_none_iff.2 fun x hx => ?_
      rw [List.mem_singleton.1 hx]
      exact hnone _ List.suffix_rfl
    rw [applyAll_miss hmiss, ih]
    · exact occurrences_eq_zero_iff.2 fun s hs =>
        hnone s (hs.trans (List.suffix_cons c t))
    · exact fun s hs => hnone s (hs.trans (List.suffix_cons c t))

/-- The edits the pass makes, in the order of the text. -/
def made (es : List (Edit α)) (t : List α) : List (Edit α) :=
  (pieces es t).filterMap Piece.edit?

theorem made_hit {es : List (Edit α)} {e : Edit α} {s : List α}
    (h : editAt es (e.old ++ s) = some e) : made es (e.old ++ s) = e :: made es s := by
  unfold made
  rw [pieces_hit h]
  rfl

theorem made_miss {es : List (Edit α)} {c : α} {t : List α} (h : editAt es (c :: t) = none) :
    made es (c :: t) = made es t := by
  unfold made
  rw [pieces_miss h]
  rfl

/-- An edit is made as often as its text occurs. -/
theorem count_made {es : List (Edit α)} (h : es.Pairwise Edit.Apart) {e : Edit α} (he : e ∈ es)
    (hself : Clear e.old.tail e.old) (t : List α) :
    (made es t).count e = occurrences e.old t := by
  induction t using pass_induction es with
  | nil =>
    rw [occurrences_nil e.old_ne_nil]
    simp [made]
  | hit f hf s hat ih =>
    rw [made_hit hat, List.count_cons, ih]
    by_cases hfe : f = e
    · subst hfe
      rw [occurrences_self_append f.old_ne_nil hself, beq_self_eq_true, if_pos rfl]
    · rw [occurrences_append (h.forall hf he hfe).oldOld, if_neg (by simpa using hfe),
        Nat.add_zero]
  | miss c t hat ih =>
    rw [made_miss hat, ih t List.suffix_rfl,
      occurrences_cons_of_miss (editAt_eq_none_iff.1 hat e he)]

theorem made_subset (es : List (Edit α)) (t : List α) : ∀ e ∈ made es t, e ∈ es := by
  induction t using pass_induction es with
  | nil => simp [made]
  | hit f hf s hat ih =>
    rw [made_hit hat]
    exact List.forall_mem_cons.2 ⟨hf, ih⟩
  | miss c t hat ih =>
    rw [made_miss hat]
    exact ih t List.suffix_rfl

/-- If every text occurs once, every edit is made once. -/
theorem made_perm {es : List (Edit α)} (h : es.Pairwise Edit.Apart)
    (hself : ∀ e ∈ es, Clear e.old.tail e.old) {t : List α}
    (honce : ∀ e ∈ es, occurrences e.old t = 1) : (made es t).Perm es := by
  have hnodup : es.Nodup := h.imp fun {e f} hapart heq =>
    hapart.oldOld.ne e.old_ne_nil (congrArg Edit.old heq)
  rw [List.perm_iff_count]
  intro e
  by_cases he : e ∈ es
  · rw [count_made h he (hself e he), honce e he, List.count_eq_one_of_mem hnodup he]
  · rw [List.count_eq_zero_of_not_mem he,
      List.count_eq_zero_of_not_mem fun hmem => he (made_subset es t e hmem)]

/-- Where the pass makes no edit, none of its texts begins afterwards. -/
theorem not_begins_applyAll {es : List (Edit α)} {e : Edit α} (he : e ∈ es)
    (htail : ∀ f ∈ es, Clear e.old.tail f.new) {c : α} {t : List α}
    (h : editAt es (c :: t) = none) : ¬e.old <+: c :: applyAll es t := by
  intro hbegins
  refine editAt_eq_none_iff.1 h e he ?_
  obtain ⟨d, p, hold⟩ := List.exists_cons_of_ne_nil e.old_ne_nil
  rw [hold, List.tail_cons] at htail
  rw [hold, List.cons_prefix_cons] at hbegins ⊢
  exact ⟨hbegins.1, begins_of_begins_applyAll t htail hbegins.2⟩

/-- A pass leaves no occurrence of a text that cannot begin in its own replacement. -/
theorem occurrences_applyAll_eq_zero {es : List (Edit α)} (h : es.Pairwise Edit.Apart)
    {e : Edit α} (he : e ∈ es) (hself : Clear e.new e.old) (htail : Clear e.old.tail e.new)
    (t : List α) : occurrences e.old (applyAll es t) = 0 := by
  have hinserted : ∀ f ∈ es, Clear f.new e.old := by
    intro f hf
    by_cases hfe : f = e
    · exact hfe ▸ hself
    · exact (h.forall hf he hfe).newOld
  have htails : ∀ f ∈ es, Clear e.old.tail f.new := by
    intro f hf
    by_cases hfe : f = e
    · exact hfe ▸ htail
    · exact (h.forall hf he hfe).oldNew'.suffix (List.tail_suffix _)
  induction t using pass_induction es with
  | nil => rw [applyAll_nil, occurrences_nil e.old_ne_nil]
  | hit f hf s hat ih => rw [applyAll_hit hat, occurrences_append (hinserted f hf), ih]
  | miss c t hat ih =>
    rw [applyAll_miss hat, occurrences_cons_of_miss (not_begins_applyAll he htails hat),
      ih t List.suffix_rfl]

/-- A pass leaves the occurrences of a text that stays apart from its own. -/
theorem occurrences_applyAll_of_apart {es : List (Edit α)} {e : Edit α}
    (h : ∀ f ∈ es, f.Apart e) (t : List α) :
    occurrences e.old (applyAll es t) = occurrences e.old t := by
  induction t using pass_induction es with
  | nil => rw [applyAll_nil]
  | hit f hf s hat ih =>
    rw [applyAll_hit hat, occurrences_append (h f hf).newOld, occurrences_append (h f hf).oldOld, ih]
  | miss c t hat ih =>
    have hhere : e.old <+: c :: applyAll es t ↔ e.old <+: c :: t := by
      obtain ⟨d, q, hold⟩ := List.exists_cons_of_ne_nil e.old_ne_nil
      have hclear : ∀ f ∈ es, Clear q f.old ∧ Clear q f.new := by
        intro f hf
        have hsuffix : q <:+ e.old := hold ▸ List.suffix_cons d q
        exact ⟨(h f hf).oldOld'.suffix hsuffix, (h f hf).oldNew'.suffix hsuffix⟩
      rw [hold, List.cons_prefix_cons, List.cons_prefix_cons]
      rw [begins_applyAll_iff (fun f hf => (hclear f hf).1) (fun f hf => (hclear f hf).2)]
    rw [applyAll_miss hat, occurrences_cons, occurrences_cons, ih t List.suffix_rfl]
    simp only [hhere]

/-- Without an occurrence of any of the texts nothing changes. -/
theorem foldl_replace_of_occurrences_eq_zero {es : List (Edit α)} {t : List α}
    (h : ∀ e ∈ es, occurrences e.old t = 0) : es.foldl (fun t e => e.replace t) t = t := by
  induction es with
  | nil => rfl
  | cons e es ih =>
    rw [List.foldl_cons, replace_of_occurrences_eq_zero (h e List.mem_cons_self)]
    exact ih fun f hf => h f (List.mem_cons_of_mem e hf)

/-- Each occurrence of the text changes the length by the difference of the two texts. -/
theorem length_applyAll_singleton {e : Edit α} (hself : Clear e.old.tail e.old) (t : List α) :
    (applyAll [e] t).length + occurrences e.old t * e.old.length =
      t.length + occurrences e.old t * e.new.length := by
  induction t using pass_induction [e] with
  | nil => simp [applyAll_nil, occurrences_nil e.old_ne_nil]
  | hit f hf s hat ih =>
    obtain rfl := List.mem_singleton.1 hf
    rw [applyAll_hit hat, occurrences_self_append f.old_ne_nil hself, List.length_append,
      List.length_append, Nat.add_mul, Nat.add_mul]
    omega
  | miss c t hat ih =>
    have hmiss := editAt_eq_none_iff.1 hat e (List.mem_singleton_self e)
    have hrest := ih t List.suffix_rfl
    rw [applyAll_miss hat, occurrences_cons_of_miss hmiss, List.length_cons, List.length_cons]
    omega

/-! ## What stands after the pass -/

section After

variable {es : List (Edit α)} {e : Edit α}

/-- No text of the edits begins behind the head of the text of a solid one. -/
theorem tail_clear (h : es.Pairwise Edit.Apart) (he : e ∈ es) (hsolid : e.Solid) :
    ∀ f ∈ es, Clear e.old.tail f.old ∧ Clear e.old.tail f.new := by
  intro f hf
  by_cases hfe : e = f
  · subst hfe
    exact ⟨hsolid.oldOld, hsolid.oldNew⟩
  · have hapart := h.forall he hf hfe
    have htail := List.tail_suffix e.old
    exact ⟨hapart.oldOld.suffix htail, hapart.oldNew.suffix htail⟩

/-- What follows the pass completes an inserted text to the old one only where it did before. -/
theorem old_begins_applyAll_iff (hold : ∀ f ∈ es, Clear e.old.tail f.old)
    (hnew : ∀ f ∈ es, Clear e.old.tail f.new) (hne : e.new ≠ []) (s : List α) :
    e.old <+: e.new ++ applyAll es s ↔ e.old <+: e.new ++ s := by
  by_cases hshort : e.new <+: e.old
  · obtain ⟨u, hu⟩ := hshort
    have htail : u <:+ e.old.tail := by
      obtain ⟨d, q, hcons⟩ := List.exists_cons_of_ne_nil hne
      rw [← hu, hcons, List.cons_append, List.tail_cons]
      exact List.suffix_append q u
    rw [← hu, List.prefix_append_right_inj, List.prefix_append_right_inj]
    exact begins_applyAll_iff (fun f hf => (hold f hf).suffix htail)
      (fun f hf => (hnew f hf).suffix htail) s
  · -- the old text does not reach behind the new one
    have hinside : ∀ t, e.old <+: e.new ++ t ↔ e.old <+: e.new := by
      intro t
      refine ⟨fun hbegins => ?_, fun hbegins => hbegins.trans (List.prefix_append _ _)⟩
      exact (List.prefix_or_prefix_of_prefix hbegins (List.prefix_append _ _)).resolve_right hshort
    rw [hinside, hinside]

/-- The pass leaves its text nowhere, unless what stands behind an edit restores it. -/
theorem occurrences_old_applyAll_eq_zero_iff (h : es.Pairwise Edit.Apart) (he : e ∈ es)
    (hsolid : e.Solid) (t : List α) :
    occurrences e.old (applyAll es t) = 0 ↔
      ∀ r, e.old ++ r <:+ t → ¬e.old <+: e.new ++ r := by
  have htails := tail_clear h he hsolid
  have htailOld : ∀ f ∈ es, Clear e.old.tail f.old := fun f hf => (htails f hf).1
  have htailNew : ∀ f ∈ es, Clear e.old.tail f.new := fun f hf => (htails f hf).2
  induction t using pass_induction es with
  | nil =>
    rw [applyAll_nil, occurrences_nil e.old_ne_nil]
    simp [e.old_ne_nil]
  | hit f hf s hat ih =>
    rw [applyAll_hit hat]
    by_cases hfe : f = e
    · subst hfe
      have hhere := old_begins_applyAll_iff htailOld htailNew hsolid.new_ne_nil s
      rw [occurrences_append_eq_zero_iff hsolid.new_ne_nil hsolid.newOld, hhere]
      refine (and_congr_right' ih).trans ?_
      simp only [append_suffix_append_iff f.old_ne_nil hsolid.oldOld, or_imp, forall_and,
        forall_eq]
    · have hapart := h.forall hf he hfe
      rw [occurrences_append hapart.newOld]
      refine ih.trans (forall_congr' fun r => imp_congr_left ⟨fun hr => ?_, ?_⟩)
      · exact hr.trans (List.suffix_append _ _)
      · exact suffix_of_clear hapart.oldOld
  | miss c t hat ih =>
    rw [applyAll_miss hat, occurrences_cons_of_miss (not_begins_applyAll he htailNew hat)]
    refine (ih t List.suffix_rfl).trans (forall_congr' fun r => imp_congr_left ⟨fun hr => ?_, ?_⟩)
    · exact hr.trans (List.suffix_cons c t)
    · intro hr
      refine (List.suffix_cons_iff.1 hr).resolve_left fun heq => ?_
      exact editAt_eq_none_iff.1 hat e he (heq ▸ List.prefix_append _ _)

end After

end Replace
