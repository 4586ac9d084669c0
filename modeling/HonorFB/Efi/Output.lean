import HonorFB.Efi.Script

/-!
# What a build prints, and building again

`Build` looks for each anchor in the text it has edited so far. The edits stay apart, so it finds an
anchor there exactly if the base has it: what it prints is a warning for each edit asked for whose
anchor the base lacks, and then what the validation says. Where the kext is missing it stops after
the boot arguments (`build_output`).

Building from a config that a build has written changes nothing more (`rebuild_iff`): the inserted
entries hold no anchor. Only the boot arguments can leave an anchor behind, where the text after
them completes the new ones to the old.
-/

namespace HonorFB.Efi

open Replace

/-- The edits with the names their warnings use. -/
def Request.labelled (r : Request) : List (Text × Edit Char) :=
  ("boot-args".toList, bootArgs r.boot) ::
    ((r.kext.map fun k => ("Kernel/Add".toList, kernelAdd k)).toList ++
      if r.neutralize then [("DeviceProperties".toList, deviceProperties)] else [])

/-- A warning for each edit asked for whose anchor is not in the text. -/
def Request.warnings (r : Request) (text : Text) : List Text :=
  (r.labelled.filter fun l => ¬l.2.old <:+: text).map fun l => anchorWarning r.name l.1

/-- What the validation of a config prints. -/
def verdict (ocv : Option (Text → Text)) (name cfg : Text) : List Text :=
  match ocv with
  | none => []
  | some run =>
    if matchesText (run cfg) "No issues found".toList then
      ["  [".toList ++ name ++ "] ocvalidate: OK".toList]
    else ["  [".toList ++ name ++ "] ocvalidate: ERREURS".toList, run cfg]

theorem Request.labelled_edits (r : Request) : r.labelled.map Prod.snd = r.edits := by
  obtain ⟨name, boot, kext, neutralize⟩ := r
  cases kext <;> cases neutralize <;> rfl

theorem patch_output (p : Progress) (name anchor : Text) (e : Edit Char) :
    (p.patch name anchor e).output =
      if e.old <:+: p.cfg then p.output else p.output ++ [anchorWarning name anchor] := rfl

theorem validate_output (p : Progress) (name : Text) (ocv : Option (Text → Text)) :
    (p.validate name ocv).output = p.output ++ verdict ocv name p.cfg := by
  unfold Progress.validate verdict
  cases ocv with
  | none => rw [List.append_nil]
  | some run =>
    dsimp only
    split <;> rfl

theorem infix_iff_occurrences {word t : Text} : word <:+: t ↔ occurrences word t ≠ 0 := by
  rw [ne_eq, occurrences_eq_zero_iff]
  constructor
  · intro h hnone
    obtain ⟨s, hbegins, hsuffix⟩ := List.infix_iff_prefix_suffix.1 h
    exact hnone s hsuffix hbegins
  · intro h
    simp only [not_forall, not_not] at h
    obtain ⟨s, hsuffix, hbegins⟩ := h
    exact hbegins.isInfix.trans hsuffix.isInfix

/-- The patches made so far leave the anchor of the next one as the base has it. -/
theorem patches_output (name base : Text) (ls : List (Text × Edit Char))
    (h : (ls.map Prod.snd).Pairwise Edit.Apart) (p : Progress) (hp : p.cfg = base) :
    (ls.foldl (fun p l => p.patch name l.1 l.2) p).cfg = applyAll (ls.map Prod.snd) base ∧
      (ls.foldl (fun p l => p.patch name l.1 l.2) p).output = p.output ++
        (ls.filter fun l => ¬l.2.old <:+: base).map fun l => anchorWarning name l.1 := by
  induction ls using List.reverseRecOn with
  | nil =>
    rw [List.map_nil, applyAll_no_edits]
    exact ⟨hp, (List.append_nil _).symm⟩
  | append_singleton ls l ih =>
    rw [List.map_append, List.pairwise_append] at h
    obtain ⟨hls, -, hlast⟩ := h
    obtain ⟨hcfg, houtput⟩ := ih hls
    have hapart : ∀ f ∈ ls.map Prod.snd, f.Apart l.2 := by
      intro f hf
      exact hlast f hf l.2 (by simp)
    have hanchor : l.2.old <:+: applyAll (ls.map Prod.snd) base ↔ l.2.old <:+: base := by
      rw [infix_iff_occurrences, infix_iff_occurrences, occurrences_applyAll_of_apart hapart]
    rw [List.foldl_append]
    constructor
    · rw [List.map_append]
      exact (congrArg l.2.replace hcfg).trans (replace_applyAll hapart base)
    · rw [List.foldl_cons, List.foldl_nil, patch_output, hcfg, houtput, List.filter_append,
        List.map_append]
      simp only [hanchor]
      by_cases hfound : l.2.old <:+: base
      · simp [hfound]
      · simp [hfound]

/-- Up to the validation the build is the patches; copying the kext prints nothing. -/
theorem build_eq_patches (ocv : Option (Text → Text)) (base : Text) (r : Request) :
    let p := r.labelled.foldl (fun p l => p.patch r.name l.1 l.2) (copyBase base)
    (build ocv base r).output = p.output ++ verdict ocv r.name p.cfg := by
  obtain ⟨name, boot, kext, neutralize⟩ := r
  unfold build
  rw [validate_output]
  cases kext <;> cases neutralize <;> rfl

/-- What `Build` has printed when it returns or stops. -/
def Host.printed (host : Host) (r : Request) : List Text :=
  match buildOn host r with
  | .ok p => p.output
  | .error p => p.output

/-- Nothing without a config; a warning for the boot arguments at most where the kext is missing;
else the warnings for the base and the verdict on what is written. -/
inductive Host.Prints (host : Host) (r : Request) : List Text → Prop where
  | noConfig (hconfig : host.config = none) : Prints host r []
  | bareBase (base : Text) (k : Kext) (hconfig : host.config = some base) (hk : r.kext = some k)
      (hmissing : host.directory k.dir = false) :
      Prints host r
        (if bootOld <:+: base then [] else [anchorWarning r.name "boot-args".toList])
  | built (base : Text) (hconfig : host.config = some base)
      (hkext : ∀ k, r.kext = some k → host.directory k.dir = true) :
      Prints host r (r.warnings base ++ verdict host.ocv r.name (applyAll r.edits base))

theorem build_prints (ocv : Option (Text → Text)) {r : Request} (h : r.Plain) (base : Text) :
    (build ocv base r).output =
      r.warnings base ++ verdict ocv r.name (applyAll r.edits base) := by
  have hapart : (r.labelled.map Prod.snd).Pairwise Edit.Apart := by
    rw [r.labelled_edits]
    exact h.apart
  obtain ⟨hcfg, houtput⟩ := patches_output r.name base r.labelled hapart (copyBase base) rfl
  rw [r.labelled_edits] at hcfg
  rw [build_eq_patches, hcfg, houtput]
  rfl

/-- **A build warns of exactly the edits asked for whose anchor is not in the base**, as far as it
gets. -/
theorem build_output {r : Request} (h : r.Plain) (host : Host) :
    host.Prints r (host.printed r) := by
  unfold Host.printed
  cases hconfig : host.config with
  | none =>
    rw [buildOn_noConfig r hconfig]
    exact .noConfig hconfig
  | some base =>
    by_cases hkext : ∀ k, r.kext = some k → host.directory k.dir = true
    · rw [buildOn_eq hconfig hkext]
      dsimp only
      rw [build_prints host.ocv h base]
      exact .built base hconfig hkext
    · simp only [not_forall, Bool.not_eq_true] at hkext
      obtain ⟨k, hk, hmissing⟩ := hkext
      rw [buildOn_missing hconfig hk hmissing]
      exact .bareBase base k hconfig hk hmissing

theorem build_output_honorfb :
    Host.Prints ⟨some (sampleConfig otherDevice), fun _ => true, none⟩ variantC
      (Host.printed ⟨some (sampleConfig otherDevice), fun _ => true, none⟩ variantC) :=
  build_output (variants_plain variantC (by simp)) _

/-! ## Building again -/

/-- Once built, a config has the anchors of the kext and of the iGPU no more. -/
theorem occurrences_built {r : Request} (h : r.Plain) (base : Text) :
    ∀ e ∈ r.edits.tail, occurrences e.old (applyAll r.edits base) = 0 := by
  intro e he
  unfold Request.edits at he
  rw [List.tail_cons] at he
  rcases List.mem_append.1 he with hkernel | hdevice
  · obtain ⟨k, hk, rfl⟩ := Option.map_eq_some_iff.1 (Option.mem_toList.1 hkernel)
    apply occurrences_applyAll_eq_zero h.apart (Request.kernelAdd_mem hk)
    · exact (h.kext k hk).kernelAdd_clear_old
    · exact kernelAnchor_tail_clear_new k
  · have hneutralize : r.neutralize = true := by
      by_contra hfalse
      rw [if_neg hfalse] at hdevice
      cases hdevice
    rw [if_pos hneutralize, List.mem_singleton] at hdevice
    subst hdevice
    apply occurrences_applyAll_eq_zero h.apart (Request.deviceProperties_mem hneutralize)
    · exact dpNeutralize_clear
    · exact dpAnchor_tail_clear

/-- Building again replaces what is left of the old boot arguments and nothing else. -/
theorem rebuild_eq {r : Request} (h : r.Plain) (base : Text) :
    applyAll r.edits (applyAll r.edits base) =
      applyAll [bootArgs r.boot] (applyAll r.edits base) := by
  have hcons : r.edits = bootArgs r.boot :: r.edits.tail := rfl
  have hapart := h.apart
  rw [hcons] at hapart
  have hboot := (List.pairwise_cons.1 hapart).1
  have hgone : ∀ e ∈ r.edits.tail,
      occurrences e.old (applyAll [bootArgs r.boot] (applyAll r.edits base)) = 0 := by
    intro e he
    rw [occurrences_applyAll_of_apart, occurrences_built h base e he]
    intro f hf
    rw [List.mem_singleton.1 hf]
    exact hboot e he
  rw [← foldl_replace_eq h.apart (applyAll r.edits base)]
  conv_lhs => rw [hcons]
  rw [List.foldl_cons, ← hcons, replace_eq]
  exact foldl_replace_of_occurrences_eq_zero hgone

/-- **Building again from a config that a build wrote changes nothing if and only if no text behind
the boot arguments of the base makes the new ones the old ones again.** -/
theorem rebuild_iff (ocv ocv' : Option (Text → Text)) {r : Request} (h : r.Named) (base : Text)
    {cfg : Text} (hcfg : (build ocv base r).dir.config = some cfg) :
    (build ocv' cfg r).dir.config = some cfg ↔
      ∀ s, bootOld ++ s <:+ base → ¬bootOld <+: r.boot ++ s := by
  have hwritten : cfg = applyAll r.edits base :=
    Option.some.inj (hcfg.symm.trans (h.build_config_eq ocv base))
  subst hwritten
  have hsettled :=
    occurrences_old_applyAll_eq_zero_iff h.apart r.bootArgs_mem (bootArgs_solid h.boot) base
  rw [h.build_config_eq, rebuild_eq h.toPlain, Option.some.injEq]
  refine Iff.trans ?_ hsettled
  constructor
  · intro hsame
    -- an anchor left would change the length
    have hlength := length_applyAll_singleton (e := bootArgs r.boot) bootOld_solid
      (applyAll r.edits base)
    rw [hsame] at hlength
    rcases Nat.eq_zero_or_pos (occurrences bootOld (applyAll r.edits base)) with hnone | hleft
    · exact hnone
    · have heq := Nat.eq_of_mul_eq_mul_left hleft (Nat.add_left_cancel hlength)
      exact absurd heq.symm (bootArgs_length h.boot)
  · intro hnone
    rw [← replace_eq]
    exact replace_of_occurrences_eq_zero hnone

theorem sampleConfig_tails :
    ∀ t ∈ (sampleConfig dpAnchor).tails, bootOld <+: t →
      ¬bootOld <+: bootBC ++ t.drop bootOld.length := by
  unfold sampleConfig bootOld bootBC kernelAnchor dpAnchor
  repeat rw [String.toList_ofList]
  decide +kernel

theorem sampleConfig_settled :
    ∀ s, bootOld ++ s <:+ sampleConfig dpAnchor → ¬bootOld <+: bootBC ++ s := by
  intro s hs hbegins
  have hdrop := sampleConfig_tails _ ((List.mem_tails _ _).2 hs) (List.prefix_append _ _)
  rw [List.drop_left] at hdrop
  exact hdrop hbegins

theorem rebuild_iff_honorfb :
    ∃ cfg, (build none (sampleConfig dpAnchor) variantC).dir.config = some cfg ∧
      (build none cfg variantC).dir.config = some cfg :=
  have hnamed := variants_named variantC (by simp)
  have hcfg := hnamed.build_config_eq none (sampleConfig dpAnchor)
  ⟨_, hcfg, (rebuild_iff none none hnamed _ hcfg).2 sampleConfig_settled⟩

end HonorFB.Efi
