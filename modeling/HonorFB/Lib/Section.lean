import HonorFB.Lib.Content
import HonorFB.Lib.Occurrences

/-!
# Edits of the sections of a list

An edit whose texts both begin with a key takes effect where a dictionary waits for one, and there
it puts the content of its new text in the place of that of the old, at the path of the dictionary;
in comments it changes nothing, and elsewhere no list admits it (`SectionEdit.cases`). So the word
of an entry stands in the content afterwards as often as before, and once more for each dictionary
at the path of its section that held the old text (`SectionEdit.woven`, `Woven.occurrences`).
-/

namespace Plist

open Replace

/-! ## Texts that begin with a key -/

/-- In a dictionary that waits for a key, with nothing open outside. -/
def Cursor.inDict : Cursor := ⟨⟨.content, [.dict false]⟩, [], []⟩

theorem follow_key (r : List Frame) (p : Path) (w : List Char) (n : Nat) (t : List Char) :
    let s : Cursor := ⟨⟨.content, .dict false :: r⟩, p, w⟩
    let s' : Cursor := ⟨⟨.content, .leaf .key :: .dict true :: r⟩, none :: p, []⟩
    let text := List.replicate n '\t' ++ (['<', 'k', 'e', 'y', '>'] ++ t)
    follow (some s) text = follow (some s') t ∧
      content (some s) text = ⟨.opens .key, none :: p, []⟩ :: content (some s') t := by
  induction n with
  | zero => exact ⟨rfl, rfl⟩
  | succ n ih => exact ih

/-- The key is the first thing such a text reads: what was read before is forgotten. -/
theorem KeyHeaded.reads {t : List Char} {es : List Event} {s' : Cursor} (h : KeyHeaded t)
    (hread : Reads .inDict t es s') (r : List Frame) (p : Path) (w : List Char) :
    Reads ⟨⟨.content, .dict false :: r⟩, p, w⟩ t (es.map (Event.lift p)) (s'.lift r p) := by
  obtain ⟨hfollow, hcontent⟩ := hread.lift rfl r p
  obtain ⟨n, rest, rfl⟩ := h
  have hkey := fun w => follow_key r p w (n + 1) rest
  constructor
  · rw [(hkey w).1, ← hfollow]
    exact (hkey []).1.symm
  · rw [(hkey w).2, ← hcontent]
    exact (hkey []).2.symm

/-- Outside of comments it can only stand where a dictionary waits for a key. -/
theorem KeyHeaded.sticks {t : List Char} (h : KeyHeaded t) {s : Cursor}
    (hcomment : ∀ d, s.reader.mode ≠ .comment d)
    (hdict : ∀ r, s.reader ≠ ⟨.content, .dict false :: r⟩) : Sticks s t := by
  have hnone : follow (some s) t = none := follow_eq_none (h.read_eq_none hcomment hdict)
  obtain ⟨n, rest, rfl⟩ := h
  -- it fails before the key is open
  have hhead : KeyHeaded (List.replicate (n + 1) '\t' ++ (['<', 'k', 'e', 'y', '>'] ++ [])) :=
    ⟨n, [], rfl⟩
  have hfail := follow_eq_none (hhead.read_eq_none hcomment hdict)
  have hsplit : ∀ u, List.replicate (n + 1) '\t' ++ (['<', 'k', 'e', 'y', '>'] ++ u) =
      (List.replicate (n + 1) '\t' ++ ['<', 'k', 'e', 'y']) ++ ['>'] ++ u := by
    intro u
    simp only [List.append_assoc, List.cons_append, List.nil_append]
  have hbrackets : '>' ∉ List.replicate (n + 1) '\t' ++ ['<', 'k', 'e', 'y'] := by
    simp
  rw [hsplit, List.append_nil] at hfail
  have hquiet := content_of_last hbrackets hfail
  refine ⟨hnone, ?_⟩
  rw [hsplit, content_append, hquiet, hfail, content_none, List.append_nil]

/-! ## The edit -/

/-- The edit puts one content in the place of another, wherever its text begins with the key. -/
structure SectionEdit (e : Edit Char) (old new : List Event) : Prop where
  oldHead : KeyHeaded e.old
  newHead : KeyHeaded e.new
  oldComment : commentAfter 0 e.old = some 0
  newComment : commentAfter 0 e.new = some 0
  reads : ∃ s, Reads .inDict e.old old s ∧ Reads .inDict e.new new s
  solid : Clear e.old.tail e.old

/-- The cursor stands in a dictionary that waits for a key. -/
def Cursor.Waits (s : Cursor) : Prop := ∃ r, s.reader = ⟨.content, .dict false :: r⟩

theorem Cursor.At.waits {s : Cursor} {path : Path} (h : s.At (.dict false) path) : s.Waits := by
  obtain ⟨⟨mode, stack⟩, p, text⟩ := s
  obtain ⟨hmode, hhead, -⟩ := h
  obtain ⟨r, hr⟩ := List.head?_eq_some_iff.1 hhead
  dsimp only at hmode hr
  subst hmode hr
  exact ⟨r, rfl⟩

theorem Cursor.Waits.at_iff {s : Cursor} (h : s.Waits) (path : Path) :
    s.At (.dict false) path ↔ s.path = path := by
  obtain ⟨r, hr⟩ := h
  unfold At
  rw [hr]
  exact ⟨fun hat => hat.2.2, fun hpath => ⟨rfl, rfl, hpath⟩⟩

namespace SectionEdit

variable {e : Edit Char} {old new : List Event}

/-- The edit changes the content of a dictionary, or a comment, or stands at no place of a list. -/
theorem cases (h : SectionEdit e old new) (s : Cursor) :
    (s.Waits ∧ ∃ s', Reads s e.old (old.map (Event.lift s.path)) s' ∧
        Reads s e.new (new.map (Event.lift s.path)) s') ∨
      (¬s.Waits ∧ ∃ s', Reads s e.old [] s' ∧ Reads s e.new [] s') ∨
      (¬s.Waits ∧ Sticks s e.old ∧ Sticks s e.new) := by
  by_cases hwaits : s.Waits
  · obtain ⟨reader, p, w⟩ := s
    obtain ⟨r, hr⟩ := id hwaits
    dsimp only at hr
    subst hr
    obtain ⟨s', hold, hnew⟩ := h.reads
    exact Or.inl ⟨hwaits, _, h.oldHead.reads hold r p w, h.newHead.reads hnew r p w⟩
  · right
    by_cases hcomment : ∃ d, s.reader.mode = .comment d
    · obtain ⟨⟨mode, stack⟩, p, w⟩ := s
      obtain ⟨d, rfl⟩ := hcomment
      exact Or.inl ⟨hwaits, _,
        reads_comment stack p w ((h.oldHead.commentAfter_eq d).trans h.oldComment),
        reads_comment stack p w ((h.newHead.commentAfter_eq d).trans h.newComment)⟩
    · have hmode : ∀ d, s.reader.mode ≠ .comment d := fun d hd => hcomment ⟨d, hd⟩
      have hdict : ∀ r, s.reader ≠ ⟨.content, .dict false :: r⟩ := fun r hr => hwaits ⟨r, hr⟩
      exact Or.inr ⟨hwaits, h.oldHead.sticks hmode hdict, h.newHead.sticks hmode hdict⟩

end SectionEdit

/-- The second content is the first with the new one in the place of the old at these paths. -/
inductive Woven (old new : List Event) : List Path → List Event → List Event → Prop where
  | nil : Woven old new [] [] []
  | keep {ps : List Path} {es es' : List Event} (x : Event) (h : Woven old new ps es es') :
      Woven old new ps (x :: es) (x :: es')
  | edit {ps : List Path} {es es' : List Event} (p : Path) (h : Woven old new ps es es') :
      Woven old new (p :: ps) (old.map (Event.lift p) ++ es) (new.map (Event.lift p) ++ es')

section Woven

variable {old new : List Event} {ps : List Path} {es es' : List Event}

theorem Woven.append_left (h : Woven old new ps es es') (a : List Event) :
    Woven old new ps (a ++ es) (a ++ es') := by
  induction a with
  | nil => exact h
  | cons x a ih => exact .keep x ih

/-- A word that begins in neither content begins in the list as before. -/
theorem Woven.begins_iff (h : Woven old new ps es es') :
    ∀ {w : List Event}, (∀ p, Clear w (old.map (Event.lift p))) →
      (∀ p, Clear w (new.map (Event.lift p))) → (w <+: es' ↔ w <+: es) := by
  induction h with
  | nil =>
    intro w _ _
    exact Iff.rfl
  | keep x h ih =>
    intro w hold hnew
    cases w with
    | nil => exact iff_of_true List.nil_prefix List.nil_prefix
    | cons y w =>
      rw [List.cons_prefix_cons, List.cons_prefix_cons]
      exact and_congr_right' (ih (fun p => (hold p).tail) fun p => (hnew p).tail)
  | edit p h ih =>
    intro w hold hnew
    by_cases hne : w = []
    · subst hne
      exact iff_of_true List.nil_prefix List.nil_prefix
    · have hnot : ∀ {a b : List Event}, Clear w a → ¬w <+: a ++ b := fun hclear hbegins =>
        hclear w List.suffix_rfl hne (comparable_of_append (Or.inr hbegins)).symm
      exact iff_of_false (hnot (hnew p)) (hnot (hold p))

/-- A word that stands `g` times in the new content at the path and else in no content stands that
much more often for every edit there. -/
theorem Woven.occurrences {w : List Event} {path : Path} {g : Nat} (h : Woven old new ps es es')
    (hne : w ≠ [])
    (hold : ∀ p es, occurrences w (old.map (Event.lift p) ++ es) = occurrences w es)
    (hnew : ∀ p es, occurrences w (new.map (Event.lift p) ++ es) =
      occurrences w es + if p = path then g else 0)
    (htailOld : ∀ p, Clear w.tail (old.map (Event.lift p)))
    (htailNew : ∀ p, Clear w.tail (new.map (Event.lift p))) :
    Replace.occurrences w es' = Replace.occurrences w es + ps.count path * g := by
  induction h with
  | nil => rw [List.count_nil, Nat.zero_mul, Nat.add_zero]
  | keep x h ih =>
    obtain ⟨y, v, rfl⟩ := List.exists_cons_of_ne_nil hne
    rw [List.tail_cons] at htailOld htailNew
    rw [occurrences_cons, occurrences_cons, ih]
    simp only [List.cons_prefix_cons, h.begins_iff htailOld htailNew]
    omega
  | edit p h ih =>
    rw [hnew, hold, ih, List.count_cons, Nat.add_mul]
    by_cases hp : p = path
    · simp [hp, Nat.add_assoc]
    · simp [hp]

/-- A word that stays apart from both contents stands where it stood. -/
theorem Woven.occurrences_of_clear {w : List Event} (h : Woven old new ps es es') (hne : w ≠ [])
    (hold : ∀ p, Clear (old.map (Event.lift p)) w) (hnew : ∀ p, Clear (new.map (Event.lift p)) w)
    (htailOld : ∀ p, Clear w.tail (old.map (Event.lift p)))
    (htailNew : ∀ p, Clear w.tail (new.map (Event.lift p))) :
    Replace.occurrences w es' = Replace.occurrences w es := by
  have hat : ∀ p es, Replace.occurrences w (new.map (Event.lift p) ++ es) =
      Replace.occurrences w es + if p = ([] : Path) then 0 else 0 := by
    intro p es
    rw [occurrences_append (hnew p), ite_self, Nat.add_zero]
  rw [h.occurrences hne (fun p es => occurrences_append (hold p) es) hat htailOld htailNew,
    Nat.mul_zero, Nat.add_zero]

theorem Woven.strings {path : Path} (h : Woven old new ps es es')
    (hold : ∀ p, strings path (old.map (Event.lift p)) = [])
    (hnew : ∀ p, strings path (new.map (Event.lift p)) = []) :
    Plist.strings path es' = Plist.strings path es := by
  induction h with
  | nil => rfl
  | keep x h ih => rw [strings_cons, ih, ← strings_cons]
  | edit p h ih => rw [strings_append, strings_append, hold, hnew, ih]

end Woven

/-- **What the edit does to the content**: it puts the new one at the path of each dictionary that
held the old text. -/
theorem SectionEdit.woven {e : Edit Char} {old new : List Event} (h : SectionEdit e old new)
    (t : List Char) : ∀ s, ∃ ps, Woven old new ps (content s t) (content s (e.replace t)) ∧
      ∀ path, ps.count path = standing (.dict false) path e.old s t := by
  rw [replace_eq]
  induction t using pass_induction [e] with
  | nil =>
    intro s
    rw [applyAll_nil, content_nil]
    exact ⟨[], .nil, fun path => by cases s <;> rfl⟩
  | hit f hf t hat ih =>
    intro s
    obtain rfl := List.mem_singleton.1 hf
    rw [applyAll_hit hat]
    cases s with
    | none =>
      rw [content_none, content_none]
      exact ⟨[], .nil, fun path => (standing_none _ path _ _).symm⟩
    | some s =>
      have hcount : ∀ path, standing (.dict false) path f.old (some s) (f.old ++ t) =
          standing (.dict false) path f.old (follow (some s) f.old) t +
            if s.At (.dict false) path then 1 else 0 :=
        fun path => standing_self_append f.old_ne_nil h.solid t s
      rcases h.cases s with ⟨hwaits, s', hold, hnew⟩ | ⟨hwaits, s', hold, hnew⟩ |
        ⟨hwaits, hold, hnew⟩
      · obtain ⟨ps, hwoven, hps⟩ := ih (some s')
        refine ⟨s.path :: ps, ?_, fun path => ?_⟩
        · rw [hold.content_append, hnew.content_append]
          exact .edit s.path hwoven
        · rw [hcount, hold.1, ← hps, List.count_cons]
          simp only [hwaits.at_iff, beq_iff_eq]
      · obtain ⟨ps, hwoven, hps⟩ := ih (some s')
        refine ⟨ps, ?_, fun path => ?_⟩
        · rw [hold.content_append, hnew.content_append]
          exact hwoven
        · rw [hcount, hold.1, ← hps, if_neg fun hat => hwaits hat.waits, Nat.add_zero]
      · refine ⟨[], ?_, fun path => ?_⟩
        · rw [hold.content_append, hnew.content_append]
          exact .nil
        · rw [hcount, hold.1, standing_none, if_neg fun hat => hwaits hat.waits, List.count_nil]
  | miss c t hat ih =>
    intro s
    rw [applyAll_miss hat]
    cases s with
    | none =>
      rw [content_none, content_none]
      exact ⟨[], .nil, fun path => (standing_none _ path _ _).symm⟩
    | some s =>
      have hmiss := editAt_eq_none_iff.1 hat e (List.mem_singleton_self e)
      obtain ⟨ps, hwoven, hps⟩ := ih t List.suffix_rfl (s.next c)
      refine ⟨ps, ?_, fun path => ?_⟩
      · rw [content_cons, content_cons]
        exact hwoven.append_left _
      · rw [standing_cons_of_miss hmiss, hps]

end Plist
