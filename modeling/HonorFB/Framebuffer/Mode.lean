import HonorFB.Framebuffer.Model

/-!
# The current display mode

Six methods speak about display modes: two list and describe them, one describes their pixels, one
flags them as connected, one sets and one reports the current mode. `Usable` is the notion of mode
the first four agree on. `setDisplayMode` records its arguments unseen, so the reported mode stays
usable exactly as long as every request is for the one mode and depth the others accept
(`modeContract_iff`).
-/

namespace HonorFB

namespace Variant

abbrev ModeRequest := IODisplayModeID × IOIndex

def afterRequests (v : Variant) (fb : Framebuffer) (requests : List ModeRequest) : Framebuffer :=
  requests.foldl (fun fb request => (v.setDisplayMode fb request.1 request.2).1) fb

/-- Every query that takes a mode accepts this one. -/
structure Usable (v : Variant) (fb : Framebuffer) (mode : IODisplayModeID) (depth : IOIndex) :
    Prop where
  listed : ∃ modes, v.getDisplayModes true = .ok modes ∧ mode ∈ modes
  information : ∃ info, v.getInformationForDisplayMode fb mode true = .ok info ∧
    depth ≤ info.maxDepthIndex
  pixels : ∃ info, v.getPixelInformation fb mode depth .kIOFBSystemAperture true = .ok info
  connected : ∃ flags, v.connectFlags mode true = .ok flags ∧ flags &&& kDisplayModeValidFlag ≠ 0

/-- A query with non-`NULL` outputs refuses the mode or the depth. -/
def Rejected (v : Variant) (fb : Framebuffer) (mode : IODisplayModeID) (depth : IOIndex) :
    Prop :=
  (∃ e, v.getInformationForDisplayMode fb mode true = .error e) ∨
    ∃ e, v.getPixelInformation fb mode depth .kIOFBSystemAperture true = .error e

/-- After the requests the reported mode is usable, and every request the queries reject was
refused without effect on the current mode and depth. -/
structure ModeContract (v : Variant) (fb : Framebuffer) (requests : List ModeRequest) : Prop where
  current : ∃ mode depth,
    v.getCurrentDisplayMode (v.afterRequests fb requests) true true =
      (some mode, some depth, .kIOReturnSuccess) ∧
    v.Usable (v.afterRequests fb requests) mode depth
  refused : ∀ before request after, requests = before ++ request :: after →
    v.Rejected (v.afterRequests fb before) request.1 request.2 →
    let result := v.setDisplayMode (v.afterRequests fb before) request.1 request.2
    result.2 ≠ .kIOReturnSuccess ∧
      result.1.currentMode = (v.afterRequests fb before).currentMode ∧
      result.1.currentDepth = (v.afterRequests fb before).currentDepth

theorem getPixelInformation_ok_iff (v : Variant) (fb : Framebuffer) (mode : IODisplayModeID)
    (depth : IOIndex) :
    (∃ info, v.getPixelInformation fb mode depth .kIOFBSystemAperture true = .ok info) ↔
      mode = kHonorModeID ∧ depth = 0 := by
  unfold getPixelInformation
  by_cases hm : mode = kHonorModeID <;> by_cases hd : depth = 0 <;> simp [hm, hd]

theorem usable_iff (v : Variant) (fb : Framebuffer) (mode : IODisplayModeID) (depth : IOIndex) :
    v.Usable fb mode depth ↔ mode = kHonorModeID ∧ depth = 0 := by
  constructor
  · intro h
    exact (getPixelInformation_ok_iff v fb mode depth).1 h.pixels
  · rintro ⟨rfl, rfl⟩
    refine ⟨⟨[kHonorModeID], rfl, List.mem_singleton.2 rfl⟩, ⟨_, rfl, ?_⟩, ⟨_, rfl⟩, ⟨_, rfl, ?_⟩⟩
    · exact Int32.le_refl 0
    · decide

theorem rejected_iff (v : Variant) (fb : Framebuffer) (mode : IODisplayModeID)
    (depth : IOIndex) :
    v.Rejected fb mode depth ↔ ¬(mode = kHonorModeID ∧ depth = 0) := by
  unfold Rejected getInformationForDisplayMode getPixelInformation
  by_cases hm : mode = kHonorModeID <;> by_cases hd : depth = 0 <;> simp [hm, hd]

theorem setDisplayMode_snd (v : Variant) (fb : Framebuffer) (mode : IODisplayModeID)
    (depth : IOIndex) : (v.setDisplayMode fb mode depth).2 = .kIOReturnSuccess := rfl

theorem afterRequests_eq (v : Variant) (requests : List ModeRequest)
    (h : ∀ request ∈ requests, request = (kHonorModeID, 0)) :
    ∀ fb : Framebuffer, fb.currentMode = kHonorModeID → fb.currentDepth = 0 →
      v.afterRequests fb requests = fb := by
  induction requests with
  | nil => intro fb _ _; rfl
  | cons request requests ih =>
    intro fb hmode hdepth
    obtain rfl := h request List.mem_cons_self
    have hset : (v.setDisplayMode fb kHonorModeID 0).1 = fb := by
      unfold setDisplayMode
      rw [← hmode, ← hdepth]
    unfold afterRequests
    rw [List.foldl_cons, hset]
    exact ih (fun r hr => h r (List.mem_cons_of_mem _ hr)) fb hmode hdepth

theorem modeContract_iff_of_current (v : Variant) (fb : Framebuffer)
    (hmode : fb.currentMode = kHonorModeID) (hdepth : fb.currentDepth = 0)
    (requests : List ModeRequest) :
    v.ModeContract fb requests ↔ ∀ request ∈ requests, request = (kHonorModeID, 0) := by
  constructor
  · intro h request hrequest
    by_contra hne
    obtain ⟨before, after, rfl⟩ := List.append_of_mem hrequest
    have hrejected : v.Rejected (v.afterRequests fb before) request.1 request.2 := by
      rw [rejected_iff]
      rintro ⟨h1, h2⟩
      exact hne (Prod.ext h1 h2)
    -- a rejected request is recorded with success all the same
    exact (h.refused before request after rfl hrejected).1 (setDisplayMode_snd v _ _ _)
  · intro h
    have hself := afterRequests_eq v requests h fb hmode hdepth
    refine ⟨⟨kHonorModeID, 0, ?_, (usable_iff v _ _ _).2 ⟨rfl, rfl⟩⟩, ?_⟩
    · rw [hself]
      unfold getCurrentDisplayMode
      rw [hmode, hdepth]
      rfl
    · intro before request after hsplit hrejected
      have hrequest := h request (by rw [hsplit]; simp)
      rw [rejected_iff, hrequest] at hrejected
      exact absurd ⟨rfl, rfl⟩ hrejected

/-- **The current mode is the advertised one exactly as long as only it is requested.** -/
theorem modeContract_iff (v : Variant) (fb : Framebuffer) (pe : PEState) (superStart : Bool)
    (hstart : (v.start fb pe superStart).2 = true) (requests : List ModeRequest) :
    v.ModeContract (v.start fb pe superStart).1 requests ↔
      ∀ request ∈ requests, request = (kHonorModeID, 0) := by
  have hpe := ((start_snd v fb pe superStart).1 hstart).1.1
  rw [start_fst v fb superStart hpe]
  exact modeContract_iff_of_current v _ rfl rfl requests

theorem modeContract_iff_honor :
    Variant.v8.ModeContract (Variant.v8.start .zeroed honorConsole true).1 [(1, 0), (1, 0)] ↔
      ∀ request ∈ [((1 : IODisplayModeID), (0 : IOIndex)), (1, 0)], request = (kHonorModeID, 0) :=
  modeContract_iff .v8 .zeroed honorConsole true (by decide) [(1, 0), (1, 0)]

/-- One request for mode 2 is granted, and the reported mode is then refused by every query. -/
theorem setDisplayMode_drifts :
    (Variant.v8.start .zeroed honorConsole true).2 = true ∧
      ¬Variant.v8.ModeContract (Variant.v8.start .zeroed honorConsole true).1 [(2, 0)] := by
  refine ⟨by decide, fun h => ?_⟩
  obtain ⟨mode, depth, hcurrent, husable⟩ := h.current
  have hmode : mode = 2 := by
    have := congrArg Prod.fst hcurrent
    exact (Option.some.inj this).symm
  have hone := ((usable_iff _ _ _ _).1 husable).1
  rw [hmode] at hone
  exact absurd hone (by decide)

end Variant

end HonorFB
