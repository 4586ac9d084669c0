import HonorFB.Nub.Model

/-!
# Publishing the nub

What a `start` of a nub variant owes the system, on every combination of outcomes of the calls that
can fail: a `true` result means the nub was registered once and backed by the boot framebuffer at
that moment, a `false` result leaves nothing registered or attached, and the references the call
took are dropped (`PublishContract`). It holds of `HonorFB`, v0 and v1 always, and of v2 unless
`arrayFromList` is reached and fails (`publishContract_iff`).
-/

namespace HonorFB

namespace Effect

def owns (obj : Obj) : Effect → Bool
  | .acquire o => o == obj
  | .release o => o == obj
  | _ => false

def memory? : Effect → Option (List IODeviceMemory)
  | .setDeviceMemory ranges => some ranges
  | _ => none

end Effect

/-- The device memory of the nub after the effects: the last one set. -/
def deviceMemory (effects : List Effect) : Option (List IODeviceMemory) :=
  effects.reverse.findSome? Effect.memory?

/-- The reference the effects take to the object, if any, is dropped exactly once and after it was
taken. -/
def Settled (effects : List Effect) (obj : Obj) : Prop :=
  effects.filter (Effect.owns obj) = [] ∨
    effects.filter (Effect.owns obj) = [.acquire obj, .release obj]

instance (effects : List Effect) (obj : Obj) : Decidable (Settled effects obj) :=
  inferInstanceAs (Decidable (_ ∨ _))

/-- What `start` owes the system. -/
structure PublishContract (v : NubVariant) (pe : PEState) (result : List Effect × Bool) :
    Prop where
  published : result.2 = true → ∃ before after,
    result.1 = before ++ .registerService :: after ∧
    .registerService ∉ before ∧ .registerService ∉ after ∧
    deviceMemory before = some [{ start := v.fbBase pe.video, length := v.fbLength pe.video }]
  nothingLeft : result.2 = false →
    .registerService ∉ result.1 ∧ ∀ plane, .attach plane ∉ result.1
  settled : ∀ obj, Settled result.1 obj

theorem deviceMemory_append (a b : List Effect) :
    deviceMemory (a ++ b) = (deviceMemory b).or (deviceMemory a) := by
  unfold deviceMemory
  rw [List.reverse_append, List.findSome?_append]

namespace NubVariant

/-- The path of v2 that reaches `arrayFromList`, which then fails. -/
def LosesMemory (v : NubVariant) (pe : PEState) (o : Outcomes) : Prop :=
  v = .v2 ∧ o.superStart = true ∧ v.passes pe ∧ o.alloc = true ∧ o.init = true ∧
    o.attach = true ∧ o.arrayFromList = false

theorem attachDeviceTree_owns (o : Outcomes) (obj : Obj) :
    (attachDeviceTree o).filter (Effect.owns obj) = [] ∨
      obj = .dtRoot ∧
        (attachDeviceTree o).filter (Effect.owns obj) = [.acquire .dtRoot, .release .dtRoot] := by
  unfold attachDeviceTree
  cases o.fromPath <;> cases o.attachToParent <;> cases obj <;> decide

theorem attachDeviceTree_quiet (o : Outcomes) :
    .registerService ∉ attachDeviceTree o ∧ deviceMemory (attachDeviceTree o) = none := by
  unfold attachDeviceTree
  cases o.fromPath <;> cases o.attachToParent <;> decide

theorem resembleDisplay_owns (o : Outcomes) (obj : Obj) :
    (resembleDisplay o).filter (Effect.owns obj) =
      (attachDeviceTree o).filter (Effect.owns obj) := by
  unfold resembleDisplay
  rw [List.filter_append]
  rfl

theorem resembleDisplay_quiet (o : Outcomes) :
    .registerService ∉ resembleDisplay o ∧ deviceMemory (resembleDisplay o) = none := by
  obtain ⟨hregister, hmemory⟩ := attachDeviceTree_quiet o
  unfold resembleDisplay
  refine ⟨fun h => ?_, ?_⟩
  · rcases List.mem_append.1 h with h | h
    · revert h
      decide
    · exact hregister h
  · rw [deviceMemory_append, hmemory]
    rfl

theorem attachMemory_owns (ranges : List IODeviceMemory) (obj : Obj) :
    (attachMemory ranges).filter (Effect.owns obj) =
      if obj = .deviceMemory then [.acquire .deviceMemory, .release .deviceMemory] else [] := by
  cases obj <;> rfl

theorem publishContract_of_false (v : NubVariant) (pe : PEState) {effects : List Effect}
    (hregister : .registerService ∉ effects) (hattach : ∀ plane, .attach plane ∉ effects)
    (hsettled : ∀ obj, Settled effects obj) : PublishContract v pe (effects, false) where
  published := fun h => by cases h
  nothingLeft := fun _ => ⟨hregister, hattach⟩
  settled := hsettled

theorem publishContract_nil (v : NubVariant) (pe : PEState) : PublishContract v pe ([], false) :=
  publishContract_of_false v pe List.not_mem_nil (fun _ => List.not_mem_nil) (fun _ => Or.inl rfl)

theorem startPlatform_contract (v : NubVariant) (pe : PEState) (o : Outcomes)
    {extra : List Effect} (hregister : .registerService ∉ extra)
    (hmemory : deviceMemory extra = none)
    (howns : ∀ obj, extra.filter (Effect.owns obj) = [] ∨
      obj = .dtRoot ∧ extra.filter (Effect.owns obj) = [.acquire .dtRoot, .release .dtRoot]) :
    PublishContract v pe (startPlatform v pe o extra) := by
  unfold startPlatform
  split
  · exact publishContract_nil v pe
  split
  · exact publishContract_nil v pe
  split
  · exact publishContract_nil v pe
  split
  · exact publishContract_nil v pe
  refine ⟨fun _ => ⟨attachMemory (v.initList pe.video) ++ extra, [], rfl, ?_, List.not_mem_nil, ?_⟩,
    fun h => (Bool.noConfusion h : _), fun obj => ?_⟩
  · intro h
    rcases List.mem_append.1 h with h | h
    · simp [attachMemory] at h
    · exact hregister h
  · rw [deviceMemory_append, hmemory]
    rfl
  · unfold Settled
    rw [List.filter_append, List.filter_append, attachMemory_owns]
    rcases howns obj with hnone | ⟨rfl, hroot⟩
    · rw [hnone]
      by_cases hobj : obj = .deviceMemory
      · subst hobj
        exact Or.inr rfl
      · rw [if_neg hobj]
        exact Or.inl rfl
    · rw [hroot]
      exact Or.inr rfl

def synthesizedEffects (pe : PEState) (o : Outcomes) : List Effect :=
  .acquire .nub :: describeNub ++ [.attach .gIOServicePlane] ++
    (if o.arrayFromList then attachMemory (v2.initList pe.video) else []) ++
    attachDeviceTree o ++ [.registerService, .release .nub]

theorem synthesizedEffects_settled (pe : PEState) (o : Outcomes) (obj : Obj) :
    Settled (synthesizedEffects pe o) obj := by
  have hmemory : (if o.arrayFromList then attachMemory (v2.initList pe.video) else []).filter
      (Effect.owns obj) = if o.arrayFromList = true ∧ obj = .deviceMemory then
        [.acquire .deviceMemory, .release .deviceMemory] else [] := by
    cases o.arrayFromList
    · rfl
    · simp [attachMemory_owns]
  unfold Settled synthesizedEffects
  simp only [List.filter_append, hmemory]
  cases obj with
  | nub =>
    rcases attachDeviceTree_owns o .nub with h | ⟨h, -⟩
    · rw [h, if_neg (by simp)]
      exact Or.inr rfl
    · cases h
  | deviceMemory =>
    rcases attachDeviceTree_owns o .deviceMemory with h | ⟨h, -⟩
    · rw [h]
      cases o.arrayFromList
      · exact Or.inl rfl
      · exact Or.inr rfl
    · cases h
  | dtRoot =>
    rcases attachDeviceTree_owns o .dtRoot with h | ⟨-, h⟩
    · rw [h, if_neg (by simp)]
      exact Or.inl rfl
    · rw [h, if_neg (by simp)]
      exact Or.inr rfl

/-- Once its nub is attached v2 publishes it, with the framebuffer behind it exactly when
`arrayFromList` succeeded. -/
theorem synthesized_contract_iff (pe : PEState) (o : Outcomes) :
    PublishContract v2 pe (synthesizedEffects pe o, true) ↔ o.arrayFromList = true := by
  obtain ⟨hregister, htree⟩ := attachDeviceTree_quiet o
  constructor
  · intro h
    obtain ⟨before, after, hsplit, -, -, hbefore⟩ := h.published rfl
    cases harray : o.arrayFromList with
    | true => rfl
    | false =>
      -- without the array no effect sets the device memory at all
      have hall : deviceMemory (synthesizedEffects pe o) = none := by
        unfold synthesizedEffects
        rw [harray, deviceMemory_append, deviceMemory_append, htree]
        rfl
      rw [show synthesizedEffects pe o = before ++ .registerService :: after from hsplit,
        deviceMemory_append, hbefore, Option.or_eq_none_iff] at hall
      exact absurd hall.2 (by simp)
  · intro harray
    refine ⟨fun _ => ⟨.acquire .nub :: describeNub ++ [.attach .gIOServicePlane] ++
        attachMemory (v2.initList pe.video) ++ attachDeviceTree o, [.release .nub], ?_, ?_, ?_, ?_⟩,
      fun h => (Bool.noConfusion h : _), synthesizedEffects_settled pe o⟩
    · unfold synthesizedEffects
      rw [harray]
      simp
    · intro h
      rcases List.mem_append.1 h with h | h
      · simp [describeNub, attachMemory] at h
      · exact hregister h
    · decide
    · rw [deviceMemory_append, htree, deviceMemory_append]
      rfl

theorem publishContract_dropped (pe : PEState) {described : List Effect}
    (h : described = [] ∨ described = describeNub) :
    PublishContract v2 pe (.acquire .nub :: described ++ [.release .nub], false) := by
  rcases h with rfl | rfl
  · exact publishContract_of_false v2 pe (by decide) (by rintro ⟨⟩ <;> decide)
      (by rintro ⟨⟩ <;> decide)
  · exact publishContract_of_false v2 pe (by decide) (by rintro ⟨⟩ <;> decide)
      (by rintro ⟨⟩ <;> decide)

theorem startSynthesized_contract_iff (pe : PEState) (o : Outcomes) :
    PublishContract v2 pe (startSynthesized pe o) ↔ ¬v2.LosesMemory pe o := by
  unfold startSynthesized
  split
  · next h => exact iff_of_true (publishContract_nil _ _) fun hl => by simp [hl.2.1] at h
  split
  · next h => exact iff_of_true (publishContract_nil _ _) fun hl => by simp [hl.2.2.1.1] at h
  split
  · next h => exact iff_of_true (publishContract_nil _ _) fun hl => by simp [hl.2.2.1.2] at h
  split
  · next h => exact iff_of_true (publishContract_nil _ _) fun hl => by simp [hl.2.2.2.1] at h
  split
  · next h =>
    exact iff_of_true (publishContract_dropped pe (Or.inl rfl)) fun hl => by
      simp [hl.2.2.2.2.1] at h
  split
  · next h =>
    exact iff_of_true (publishContract_dropped pe (Or.inr rfl)) fun hl => by
      simp [hl.2.2.2.2.2.1] at h
  · next hsuper hinit hinvalid halloc hnub hattach =>
    have hloses : v2.LosesMemory pe o ↔ o.arrayFromList = false := by
      unfold LosesMemory passes
      simp_all
    rw [hloses, Bool.not_eq_false]
    exact synthesized_contract_iff pe o

/-- **The nub is published only when it is backed by the boot framebuffer**, and a failed start
leaves nothing behind, on every path but the one on which v2 goes on after `arrayFromList`
failed. -/
theorem publishContract_iff (v : NubVariant) (pe : PEState) (o : Outcomes) :
    PublishContract v pe (v.start pe o) ↔ ¬v.LosesMemory pe o := by
  have hplatform : ∀ v' : NubVariant, v' ≠ .v2 → ¬v'.LosesMemory pe o := fun _ hv hl => hv hl.1
  cases v with
  | honorFB =>
    exact iff_of_true (startPlatform_contract _ pe o List.not_mem_nil rfl fun _ => Or.inl rfl)
      (hplatform _ (by decide))
  | v0 =>
    exact iff_of_true (startPlatform_contract _ pe o List.not_mem_nil rfl fun _ => Or.inl rfl)
      (hplatform _ (by decide))
  | v1 =>
    obtain ⟨hregister, hmemory⟩ := resembleDisplay_quiet o
    refine iff_of_true (startPlatform_contract _ pe o hregister hmemory fun obj => ?_)
      (hplatform _ (by decide))
    rw [resembleDisplay_owns]
    exact attachDeviceTree_owns o obj
  | v2 => exact startSynthesized_contract_iff pe o

/-- v2 with every call successful but `arrayFromList`: a nub without device memory is registered
and `start` returns `true`. -/
theorem startSynthesized_without_memory :
    let result := v2.start honorConsole ⟨true, true, true, true, false, true, true⟩
    result.2 = true ∧ .registerService ∈ result.1 ∧ deviceMemory result.1 = none ∧
      ¬PublishContract v2 honorConsole result := by
  refine ⟨rfl, by decide, by decide, fun h => ?_⟩
  exact (startSynthesized_contract_iff honorConsole _).1 h
    ⟨rfl, rfl, by decide, rfl, rfl, rfl, rfl⟩

end NubVariant

end HonorFB
