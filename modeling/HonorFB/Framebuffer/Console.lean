import HonorFB.Framebuffer.Model

/-!
# One geometry on every surface

A client learns the geometry of the console along four paths: the mode information, the pixel
information, the system aperture and the preferred timing of the EDID block. The first three follow
`PE_state.video`, except that `bitsPerPixel` is the constant 32; the EDID table is a constant too.
The surfaces describe the recorded console exactly when it is the one those constants were written
for (`agreesWithConsole_iff`).
-/

namespace HonorFB

/-! ## Reading the EDID back -/

def readBlock (data : Nat → UInt8) : EdidBlock :=
  Vector.ofFn fun i => data i.val

theorem foldl_update_eq {n : Nat} (block : Vector UInt8 n) (is : List (Fin n))
    (data : Nat → UInt8) (j : Nat) :
    is.foldl (fun (d : Nat → UInt8) (i : Fin n) => Function.update d i.val (block.get i)) data j =
      if h : ∃ hj : j < n, (⟨j, hj⟩ : Fin n) ∈ is then block.get ⟨j, h.1⟩ else data j := by
  induction is generalizing data with
  | nil => simp
  | cons i is ih =>
    rw [List.foldl_cons, ih]
    by_cases hmem : ∃ hj : j < n, (⟨j, hj⟩ : Fin n) ∈ is
    · have hcons : ∃ hj : j < n, (⟨j, hj⟩ : Fin n) ∈ i :: is :=
        ⟨hmem.1, List.mem_cons_of_mem _ hmem.2⟩
      rw [dif_pos hmem, dif_pos hcons]
    · rw [dif_neg hmem]
      by_cases hij : j = i.val
      · subst hij
        rw [Function.update_self, dif_pos ⟨i.isLt, List.mem_cons_self⟩]
      · rw [Function.update_of_ne hij, dif_neg]
        rintro ⟨hj, h⟩
        rcases List.mem_cons.1 h with h | h
        · exact hij (congrArg Fin.val h)
        · exact hmem ⟨hj, h⟩

theorem readBlock_writeBlock (edid : EdidBlock) (data : Nat → UInt8) :
    readBlock (Variant.writeBlock edid data) = edid := by
  apply Vector.ext
  intro j hj
  unfold readBlock Variant.writeBlock
  rw [Vector.getElem_ofFn, foldl_update_eq, dif_pos ⟨hj, List.mem_finRange _⟩]
  rfl

namespace Variant

/-! ## The four surfaces -/

/-- Every surface of the driver describes this console. -/
structure AgreesWithConsole (v : Variant) (fb : Framebuffer) (video : PEVideo) : Prop where
  information : ∃ info, v.getInformationForDisplayMode fb kHonorModeID true = .ok info ∧
    info.nominalWidth.toNat = video.v_width.toNat ∧
    info.nominalHeight.toNat = video.v_height.toNat
  pixels : ∃ info, v.getPixelInformation fb kHonorModeID 0 .kIOFBSystemAperture true = .ok info ∧
    info.activeWidth.toNat = video.v_width.toNat ∧
    info.activeHeight.toNat = video.v_height.toNat ∧
    info.bytesPerRow.toNat = video.v_rowBytes.toNat ∧
    info.bitsPerPixel.toNat = video.v_depth.toNat
  aperture : ∃ range, v.getApertureRange fb .kIOFBSystemAperture = some range ∧
    range.start = video.v_baseAddr &&& ~~~(3 : UInt64) ∧
    range.length.toNat = video.v_height.toNat * video.v_rowBytes.toNat
  timing : ∀ data length, 128 ≤ length → ∃ data' length',
    v.getDDCBlock fb 1 (some data) (some length) = .ok (data', length') ∧
    timingWidth (readBlock data') = video.v_width.toNat ∧
    timingHeight (readBlock data') = video.v_height.toNat

theorem getDDCBlock_of_le (v : Variant) (fb : Framebuffer) (data : Nat → UInt8) {length : UInt64}
    (hlength : 128 ≤ length) :
    v.getDDCBlock fb 1 (some data) (some length) = .ok (writeBlock fb.edid data, 128) := by
  have hlt : ¬length < 128 := UInt64.not_lt.2 hlength
  simp [getDDCBlock, hlt]

theorem readBlock_timing (v : Variant) (fb : Framebuffer) (video : PEVideo)
    (data : Nat → UInt8) :
    timingWidth (readBlock (writeBlock (fb.recordConsole v.base video).edid data)) = 1920 ∧
      timingHeight (readBlock (writeBlock (fb.recordConsole v.base video).edid data)) = 1200 := by
  have hbase : v.base = edidBase := by cases v <;> rfl
  rw [readBlock_writeBlock]
  have htiming := fillEdid_timing v.base fb.edid
  rw [hbase, edidBase_timing.1, edidBase_timing.2, ← hbase] at htiming
  exact htiming

/-- **The surfaces describe the boot console exactly when it is 1920x1200 at 32 bits a pixel.** -/
theorem agreesWithConsole_iff (v : Variant) (fb : Framebuffer) (pe : PEState) (superStart : Bool)
    (hstart : (v.start fb pe superStart).2 = true)
    (hwidth : pe.video.v_width.toNat < 2 ^ 32) (hheight : pe.video.v_height.toNat < 2 ^ 32)
    (hrowBytes : pe.video.v_rowBytes.toNat < 2 ^ 32) :
    v.AgreesWithConsole (v.start fb pe superStart).1 pe.video ↔
      pe.video.v_depth = 32 ∧ pe.video.v_width = 1920 ∧ pe.video.v_height = 1200 := by
  have hinit := ((start_snd v fb pe superStart).1 hstart).1.1
  rw [start_fst v fb superStart hinit]
  constructor
  · intro h
    obtain ⟨info, hinfo, -, -, -, hdepth⟩ := h.pixels
    obtain rfl := Except.ok.inj hinfo
    obtain ⟨data', length', hddc, htw, hth⟩ := h.timing (fun _ => 0) 128 (UInt64.le_refl _)
    rw [getDDCBlock_of_le v _ _ (UInt64.le_refl _)] at hddc
    obtain ⟨rfl, -⟩ := Prod.mk.inj (Except.ok.inj hddc)
    obtain ⟨htimingWidth, htimingHeight⟩ := readBlock_timing v fb pe.video fun _ => 0
    rw [htimingWidth] at htw
    rw [htimingHeight] at hth
    exact ⟨UInt64.toNat_inj.1 hdepth.symm, UInt64.toNat_inj.1 htw.symm,
      UInt64.toNat_inj.1 hth.symm⟩
  · rintro ⟨hdepth, hw, hh⟩
    have htw := (Word.toNat_toUInt32_eq_iff pe.video.v_width).2 hwidth
    have hth := (Word.toNat_toUInt32_eq_iff pe.video.v_height).2 hheight
    have htr := (Word.toNat_toUInt32_eq_iff pe.video.v_rowBytes).2 hrowBytes
    refine ⟨⟨_, rfl, htw, hth⟩, ⟨_, rfl, htw, hth, htr, ?_⟩, ⟨_, rfl, rfl, ?_⟩, ?_⟩
    · rw [hdepth]
      rfl
    · simp only [Framebuffer.recordConsole, Word.toNat_widening_mul, hth, htr]
    · intro data length hlength
      obtain ⟨htimingWidth, htimingHeight⟩ := readBlock_timing v fb pe.video data
      refine ⟨_, _, getDDCBlock_of_le v _ _ hlength, ?_, ?_⟩
      · rw [htimingWidth, hw]
        rfl
      · rw [htimingHeight, hh]
        rfl

theorem agreesWithConsole_iff_honor :
    Variant.v8.AgreesWithConsole (Variant.v8.start .zeroed honorConsole true).1
        honorConsole.video ↔
      honorConsole.video.v_depth = 32 ∧ honorConsole.video.v_width = 1920 ∧
        honorConsole.video.v_height = 1200 :=
  agreesWithConsole_iff .v8 .zeroed honorConsole true (by decide) (by decide) (by decide)
    (by decide)

def largeConsole : PEState where
  initialized := true
  video := {
    v_baseAddr := 0x4000000000
    v_rowBytes := 10240
    v_width := 2560
    v_height := 1600
    v_depth := 32 }

/-- v8 and v9 start on it, and the EDID they return still says 1920x1200. -/
theorem largeConsole_disagrees :
    (Variant.v8.start .zeroed largeConsole true).2 = true ∧
      ¬Variant.v8.AgreesWithConsole (Variant.v8.start .zeroed largeConsole true).1
        largeConsole.video ∧
      (Variant.v9.start .zeroed largeConsole true).2 = true ∧
      ¬Variant.v9.AgreesWithConsole (Variant.v9.start .zeroed largeConsole true).1
        largeConsole.video := by
  have htiming : ∀ v : Variant, ¬v.AgreesWithConsole (v.start .zeroed largeConsole true).1
      largeConsole.video := by
    intro v h
    obtain ⟨data', length', hddc, hw, -⟩ := h.timing (fun _ => 0) 128 (UInt64.le_refl _)
    rw [start_fst v _ _ rfl, getDDCBlock_of_le v _ _ (UInt64.le_refl _)] at hddc
    obtain ⟨rfl, -⟩ := Prod.mk.inj (Except.ok.inj hddc)
    rw [(readBlock_timing v .zeroed largeConsole.video fun _ => 0).1] at hw
    exact absurd hw (by decide)
  exact ⟨by decide, htiming .v8, by decide, htiming .v9⟩

end Variant

end HonorFB
