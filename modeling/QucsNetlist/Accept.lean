import QucsNetlist.Duplicates

/-! # What a run without errors guarantees

The subcircuit checks of `netlist_checker` run on the top-level list before any template body
is checked, and on each body after; together, when none of them counts an error, every `Sub`
line of every list names a template with as many nodes as the line, and no cycle of the
instantiation graph is reachable from a top-level instance; on input whose lines start
unmarked, the lines of every list also have pairwise distinct types and names. The checks read
the lists at different moments of the pass, but all these facts depend on skeletons only, so
they hold of the lists the pass hands to the expansion.
-/

namespace QucsNetlist

open Relation

/-! ### Lookups read skeletons only -/

section Lookups

variable {reg reg' : List Definition}

theorem shape_eq_iff {d d' : Definition} : d.shape = d'.shape ↔
    d.type = d'.type ∧ d.instance = d'.instance ∧ d.action = d'.action ∧ d.nodes = d'.nodes ∧
      d.pairs.map Pair.ref = d'.pairs.map Pair.ref := by
  simp only [Definition.shape, Prod.mk.injEq]

theorem checkerFindReference_eq_refs (d : Definition) (key : String) :
    checkerFindReference d key =
      (d.pairs.map Pair.ref).findSome? fun q => if q.1 = key then q.2 else none := by
  rw [List.findSome?_map]; rfl

theorem checkerFindReference_of_shape {d d' : Definition} (h : d.shape = d'.shape)
    (key : String) : checkerFindReference d key = checkerFindReference d' key := by
  rw [checkerFindReference_eq_refs, checkerFindReference_eq_refs, (shape_eq_iff.mp h).2.2.2.2]

theorem subReference_of_shape {d d' : Definition} (h : d.shape = d'.shape) :
    subReference d = subReference d' := by
  simp only [subReference, (shape_eq_iff.mp h).1, checkerFindReference_of_shape h]

theorem checkerFindSubcircuit_skeleton (reg : List Definition) (v : String) :
    (checkerFindSubcircuit reg v).map Definition.skeleton =
      (skeletons reg).find? (·.1.2.1 == v) := by
  rw [skeletons, List.find?_map]; rfl

theorem checkerGetSubcircuit_of_skeletons (h : skeletons reg = skeletons reg')
    {d d' : Definition} (hd : d.shape = d'.shape) :
    (checkerGetSubcircuit reg d).map Definition.skeleton =
      (checkerGetSubcircuit reg' d').map Definition.skeleton := by
  simp only [checkerGetSubcircuit, checkerFindReference_of_shape hd]
  cases checkerFindReference d' "Type" with
  | none => rfl
  | some v =>
    simp only [Option.some_bind]
    rw [checkerFindSubcircuit_skeleton, checkerFindSubcircuit_skeleton, h]

/-- A template found in one registry has a template of the same skeleton in the other. -/
theorem checkerGetSubcircuit_transfer (h : skeletons reg = skeletons reg') {d d' : Definition}
    (hd : d.shape = d'.shape) {T : Definition} (hT : checkerGetSubcircuit reg d = some T) :
    ∃ T', checkerGetSubcircuit reg' d' = some T' ∧ T'.skeleton = T.skeleton := by
  have := checkerGetSubcircuit_of_skeletons h hd
  rw [hT] at this
  cases h' : checkerGetSubcircuit reg' d' with
  | none => rw [h'] at this; cases this
  | some T' => rw [h'] at this; exact ⟨T', rfl, (Option.some.inj this).symm⟩

theorem checkerGetSubcircuit_none_of_skeletons (h : skeletons reg = skeletons reg')
    {d d' : Definition} (hd : d.shape = d'.shape) (hn : checkerGetSubcircuit reg d = none) :
    checkerGetSubcircuit reg' d' = none := by
  have := checkerGetSubcircuit_of_skeletons h hd
  rw [hn] at this
  exact Option.map_eq_none'.mp this.symm

theorem subEdge_of_skeletons (h : skeletons reg = skeletons reg') {u v : String}
    (e : SubEdge reg u v) : SubEdge reg' u v := by
  obtain ⟨T, hT, d, hd, hv⟩ := e
  have hmap := congrArg (Option.map Definition.skeleton) hT
  rw [Option.map_some', ← Option.map_some', checkerFindSubcircuit_skeleton, h,
    ← checkerFindSubcircuit_skeleton] at hmap
  obtain ⟨T', hT', hs⟩ := Option.map_eq_some'.mp hmap
  obtain ⟨d', hd', hds⟩ := mem_of_shapes (congrArg Prod.snd hs).symm hd
  exact ⟨T', hT', d', hd', (subReference_of_shape hds).trans hv⟩

theorem cycleFrom_of_skeletons (h : skeletons reg = skeletons reg') {t : String} :
    CycleFrom reg t ↔ CycleFrom reg' t := by
  have : SubEdge reg = SubEdge reg' := by
    funext u v
    exact propext ⟨subEdge_of_skeletons h, subEdge_of_skeletons h.symm⟩
  unfold CycleFrom; rw [this]

end Lookups

/-! ### What the subcircuit checks prove -/

/-- Every `Sub` line of `l` names a template of `reg` with as many nodes as the line. -/
def SubsResolve (reg l : List Definition) : Prop :=
  ∀ d ∈ l, d.type = "Sub" →
    ∃ T, checkerGetSubcircuit reg d = some T ∧ d.nodes.length = T.nodes.length

instance (reg l : List Definition) : Decidable (SubsResolve reg l) :=
  decidable_of_iff (∀ d ∈ l, d.type = "Sub" →
      ∃ T ∈ checkerGetSubcircuit reg d, d.nodes.length = T.nodes.length)
    (by simp only [SubsResolve, Option.mem_def])

/-- No cycle of the instantiation graph is reachable from a template a `Sub` line of `l`
names. -/
def SubsAcyclic (reg l : List Definition) : Prop :=
  ∀ d ∈ l, d.type = "Sub" → ∀ T, checkerGetSubcircuit reg d = some T → ¬ CycleFrom reg T.instance

section Transfer

variable {reg reg' l l' : List Definition}

theorem SubsResolve.transfer (h : skeletons reg = skeletons reg')
    (hl : l'.map Definition.shape = l.map Definition.shape) (hs : SubsResolve reg l) :
    SubsResolve reg' l' := by
  intro d' hd' hsub
  obtain ⟨d, hd, hdd⟩ := mem_of_shapes hl hd'
  obtain ⟨ht, -, -, hn, -⟩ := shape_eq_iff.mp hdd
  obtain ⟨T, hT, hlen⟩ := hs d hd (ht.trans hsub)
  obtain ⟨T', hT', hTT⟩ := checkerGetSubcircuit_transfer h hdd hT
  refine ⟨T', hT', ?_⟩
  rw [← hn, hlen, (shape_eq_iff.mp (congrArg Prod.fst hTT)).2.2.2.1]

theorem SubsAcyclic.transfer (h : skeletons reg = skeletons reg')
    (hl : l'.map Definition.shape = l.map Definition.shape) (hs : SubsAcyclic reg l) :
    SubsAcyclic reg' l' := by
  intro d' hd' hsub T' hT'
  obtain ⟨d, hd, hdd⟩ := mem_of_shapes hl hd'
  have ht := (shape_eq_iff.mp hdd).1
  obtain ⟨T, hT, hTT⟩ := checkerGetSubcircuit_transfer h.symm hdd.symm hT'
  rw [← (cycleFrom_of_skeletons h), ← (shape_eq_iff.mp (congrArg Prod.fst hTT)).2.1]
  exact hs d hd (ht.symm ▸ hsub) T hT

end Transfer

/-- One line of `checker_validate_subcircuits` with no error: a `Sub` line names a template
with as many nodes, from which the search found no cycle. -/
theorem validateSubcircuit_zero {reg : List Definition} {fuel : Nat} {d : Definition}
    {s : Nat × Option Nat × List Diagnostic} (h : validateSubcircuit reg fuel d = .ok s)
    (h0 : s.1 = 0) (hsub : d.type = "Sub") :
    ∃ T, checkerGetSubcircuit reg d = some T ∧ d.nodes.length = T.nodes.length ∧
      ¬ CycleFrom reg T.instance := by
  simp only [validateSubcircuit, hsub, if_true] at h
  split at h
  · cases h; cases h0
  rename_i v hv
  split at h
  · cases h; cases h0
  rename_i T hT
  obtain ⟨r, hr, h⟩ := bind_eq_ok.mp h
  cases h
  have hT' : checkerFindSubcircuit reg T.instance = some T := by
    rwa [checkerFindSubcircuit_instance hT]
  refine ⟨T, by simp [checkerGetSubcircuit, hv, hT], ?_, fun ⟨w, hw, hc⟩ => ?_⟩
  · by_contra hne
    simp [checkerCountNodes, hne] at h0
  · have hr0 : r.1 = 0 := by simp only at h0; omega
    exact (checkerValidateSubCycles_zero hT' hr hr0 w hw).2 hc

theorem validateSubcircuit_stored {reg : List Definition} {fuel : Nat} {d : Definition}
    {s : Nat × Option Nat × List Diagnostic} (h : validateSubcircuit reg fuel d = .ok s)
    (hs : s.2.1 = none) (hsub : d.type = "Sub") : checkerGetSubcircuit reg d = none := by
  simp only [validateSubcircuit, hsub, if_true] at h
  split at h
  · simp [checkerGetSubcircuit, *]
  split at h
  · simp [checkerGetSubcircuit, *]
  obtain ⟨r, -, h⟩ := bind_eq_ok.mp h
  cases h; cases hs

/-- `checker_validate_subcircuits` with no error. -/
theorem checkerValidateSubcircuits_zero {reg : List Definition} {fuel : Nat} :
    ∀ {l : List Definition} {s : Nat × Option Nat × List Diagnostic},
      checkerValidateSubcircuits reg fuel l = .ok s → s.1 = 0 →
        SubsResolve reg l ∧ SubsAcyclic reg l
  | [], _, _, _ => ⟨(fun _ hd => by cases hd), (fun _ hd => by cases hd)⟩
  | d :: ds, s, h, h0 => by
    obtain ⟨here, hh, h⟩ := bind_eq_ok.mp h
    obtain ⟨rest, hr, h⟩ := bind_eq_ok.mp h
    cases h
    have ih := checkerValidateSubcircuits_zero hr (by simp only at h0; omega)
    have hz : here.1 = 0 := by simp only at h0; omega
    refine ⟨fun e he hsub => ?_, fun e he hsub T hT => ?_⟩
    · rcases List.mem_cons.mp he with rfl | he
      · obtain ⟨T, hT, hn, -⟩ := validateSubcircuit_zero hh hz hsub
        exact ⟨T, hT, hn⟩
      · exact ih.1 e he hsub
    · rcases List.mem_cons.mp he with rfl | he
      · obtain ⟨T', hT', -, hc⟩ := validateSubcircuit_zero hh hz hsub
        rw [hT] at hT'; cases hT'; exact hc
      · exact ih.2 e he hsub T hT

/-- `checker_validate_subcircuits` stores nothing in `checker_sub_cycles` only when no `Sub`
line of the list names a template. -/
theorem checkerValidateSubcircuits_stored {reg : List Definition} {fuel : Nat} :
    ∀ {l : List Definition} {s : Nat × Option Nat × List Diagnostic},
      checkerValidateSubcircuits reg fuel l = .ok s → s.2.1 = none →
        ∀ d ∈ l, d.type = "Sub" → checkerGetSubcircuit reg d = none
  | [], _, _, _ => fun _ hd => by cases hd
  | d :: ds, s, h, hs => by
    obtain ⟨here, hh, h⟩ := bind_eq_ok.mp h
    obtain ⟨rest, hr, h⟩ := bind_eq_ok.mp h
    cases h
    obtain ⟨hrest, hhere⟩ := Option.or_eq_none.mp hs
    intro e he hsub
    rcases List.mem_cons.mp he with rfl | he
    · exact validateSubcircuit_stored hh hhere hsub
    · exact checkerValidateSubcircuits_stored hr hrest e he hsub

/-! ### The pass -/

/-- The template bodies of a registry checked without error: each names templates that exist
with the right arity and reach no cycle, and, checked unmarked, has pairwise distinct keys. The
loop writes each body only at its own template, so each is checked as the registry held it. -/
theorem checkBodies_zero {available : List Define} {fuel : Nat} {reg : List Definition} :
    ∀ {ks : List Nat} {st r : Report × Option Nat × List Definition},
      skeletons st.2.2 = skeletons reg → ks.foldlM (checkBody available fuel) st = .ok r →
      r.1.errors = 0 → ks.Nodup → st.1.errors = 0 ∧ ∀ k ∈ ks, ∀ T, st.2.2[k]? = some T →
        SubsResolve reg T.sub ∧ SubsAcyclic reg T.sub ∧
          ((∀ e ∈ T.sub, e.duplicate = false) → (T.sub.map Definition.key).Nodup)
  | [], _, _, _, h, h0, _ => by cases h; exact ⟨h0, fun _ hk => absurd hk (List.not_mem_nil _)⟩
  | k :: ks, st, r, hst, h, h0, hnd => by
    rw [List.foldlM_cons] at h
    obtain ⟨st', hs, h⟩ := bind_eq_ok.mp h
    obtain ⟨hk, hnd⟩ := List.nodup_cons.mp hnd
    obtain ⟨ih0, ih⟩ := checkBodies_zero ((skeletons_checkBody hs).trans hst) h h0 hnd
    have hrest : ∀ j ∈ ks, ∀ T, st.2.2[j]? = some T → SubsResolve reg T.sub ∧
        SubsAcyclic reg T.sub ∧
          ((∀ e ∈ T.sub, e.duplicate = false) → (T.sub.map Definition.key).Nodup) :=
      fun j hj T hT => ih j hj T ((checkBody_getElem?_ne hs fun e => hk (e ▸ hj)).trans hT)
    unfold checkBody at hs
    split at hs
    · cases hs
      refine ⟨ih0, fun j hj T hT => ?_⟩
      rcases List.mem_cons.mp hj with rfl | hj
      · rename_i hn; rw [hn] at hT; cases hT
      · exact hrest j hj T hT
    rename_i T' hT'
    obtain ⟨r', hr', hs⟩ := bind_eq_ok.mp hs
    cases hs
    simp only [Report.append_errors] at ih0
    refine ⟨by omega, fun j hj T hT => ?_⟩
    rcases List.mem_cons.mp hj with rfl | hj
    · rw [hT'] at hT; cases hT
      obtain ⟨checked, subs, hc, hsubs, -, hle, -⟩ := netlistCheckerIntern_ok hr'
      have hreg : skeletons (st.2.2.modify (fun T => { T with sub := checked }) j) =
          skeletons reg :=
        (map_modify_at (skeleton_sub (shapes_of_skeletons hc)) hT').trans hst
      obtain ⟨hres, hacy⟩ := checkerValidateSubcircuits_zero hsubs (by omega)
      have hsh := (shapes_of_skeletons hc).symm
      exact ⟨hres.transfer hreg hsh, hacy.transfer hreg hsh,
        netlistCheckerIntern_keys_nodup hr' (by omega)⟩
    · exact hrest j hj T hT

/-- What the line checks of a run without errors guarantee of the lists they hand on. -/
structure Accepted (root reg : List Definition) : Prop where
  top : SubsResolve reg root
  acyclic : SubsAcyclic reg root
  bodies : ∀ T ∈ reg, SubsResolve reg T.sub

theorem Accepted.transfer {root root' reg : List Definition} (h : Accepted root reg)
    (hr : skeletons root' = skeletons root) : Accepted root' reg :=
  ⟨h.top.transfer rfl (shapes_of_skeletons hr), h.acyclic.transfer rfl (shapes_of_skeletons hr),
    h.bodies⟩

section Pass

variable {available : List Define} {fuel : Nat} {L R : List Definition} {r : Report}
  {stored : Option Nat} {root reg : List Definition}

/-- The line checks return the lists `checker_build_subcircuits` made, up to skeletons. -/
theorem checkLists_skeletons (h : checkLists available fuel L R = .ok (r, stored, root, reg)) :
    skeletons root = skeletons (checkerBuildSubcircuits L R).1 ∧
      skeletons reg = skeletons (checkerBuildSubcircuits L R).2 := by
  unfold checkLists at h
  obtain ⟨top, htop, h⟩ := bind_eq_ok.mp h
  obtain ⟨defs, hdefs, h⟩ := bind_eq_ok.mp h
  obtain ⟨bodies, hbodies, h⟩ := bind_eq_ok.mp h
  cases h
  exact ⟨(netlistCheckerIntern_ok htop).choose_spec.choose_spec.2.2.2.2,
    (skeletons_checkBodies hbodies).trans (netlistCheckerIntern_ok hdefs).choose_spec.choose_spec.2.2.2.2⟩

/-- Every template body of the registry the line checks of a run without errors return names
templates that exist with the right arity, and reaches no cycle. -/
theorem checkLists_bodies (h : checkLists available fuel L R = .ok (r, stored, root, reg))
    (h0 : r.errors = 0) : ∀ T ∈ reg, SubsResolve reg T.sub ∧ SubsAcyclic reg T.sub := by
  unfold checkLists at h
  obtain ⟨top, -, h⟩ := bind_eq_ok.mp h
  obtain ⟨defs, -, h⟩ := bind_eq_ok.mp h
  obtain ⟨bodies, hbodies, h⟩ := bind_eq_ok.mp h
  cases h
  simp only [Report.append_errors] at h0
  intro T hT
  obtain ⟨T0, hT0, hTT⟩ := mem_of_skeletons (skeletons_checkBodies hbodies) hT
  obtain ⟨k, hk⟩ := List.mem_iff_getElem?.mp hT0
  obtain ⟨hres, hacy, -⟩ := (checkBodies_zero rfl hbodies (by omega) (List.nodup_range _)).2 k
    (List.mem_range.mpr (List.getElem?_eq_some_iff.mp hk).1) T0 hk
  have hsh := (congrArg Prod.snd hTT).symm
  exact ⟨hres.transfer (skeletons_checkBodies hbodies).symm hsh,
    hacy.transfer (skeletons_checkBodies hbodies).symm hsh⟩

/-- The line checks of a run without errors accept the lists they return. -/
theorem checkLists_accepted (h : checkLists available fuel L R = .ok (r, stored, root, reg))
    (h0 : r.errors = 0) : Accepted root reg := by
  have hbod := checkLists_bodies h h0
  unfold checkLists at h
  obtain ⟨top, htop, h⟩ := bind_eq_ok.mp h
  obtain ⟨defs, hdefs, h⟩ := bind_eq_ok.mp h
  obtain ⟨bodies, hbodies, h⟩ := bind_eq_ok.mp h
  cases h
  simp only [Report.append_errors] at h0
  obtain ⟨c0, s0, hc0, hs0, -, hle0, hroot⟩ := netlistCheckerIntern_ok htop
  obtain ⟨-, -, -, -, -, -, hreg1⟩ := netlistCheckerIntern_ok hdefs
  have hreg := (skeletons_checkBodies hbodies).trans hreg1
  obtain ⟨hres, hacy⟩ := checkerValidateSubcircuits_zero hs0 (by omega)
  have hsh := shapes_of_skeletons (hroot.trans hc0.symm)
  exact ⟨hres.transfer hreg.symm hsh, hacy.transfer hreg.symm hsh, fun T hT => (hbod T hT).1⟩

/-- The line checks of a run without error, on input whose lines are all unmarked, return a
top-level list and template bodies with pairwise distinct keys. -/
theorem checkLists_keys (h : checkLists available fuel L R = .ok (r, stored, root, reg))
    (h0 : r.errors = 0)
    (hL : EveryLines (·.duplicate = false) L)
    (hR : ∀ T ∈ R, T.duplicate = false ∧ ∀ e ∈ T.sub, e.duplicate = false) :
    (root.map Definition.key).Nodup ∧ ∀ T ∈ reg, (T.sub.map Definition.key).Nodup := by
  obtain ⟨hroot, hreg⟩ := checkLists_skeletons h
  obtain ⟨htop, hbod⟩ := checkerBuildSubcircuits_every (fun _ _ h => h) L R hL hR
  unfold checkLists at h
  obtain ⟨top, htop', h⟩ := bind_eq_ok.mp h
  obtain ⟨defs, hdefs, h⟩ := bind_eq_ok.mp h
  obtain ⟨bodies, hbodies, h⟩ := bind_eq_ok.mp h
  cases h
  simp only [Report.append_errors] at h0
  refine ⟨?_, fun T hT => ?_⟩
  · rw [keys_of_shapes (shapes_of_skeletons hroot)]
    exact netlistCheckerIntern_keys_nodup htop' (by omega) htop
  · obtain ⟨-, -, -, -, -, -, hsub⟩ :=
      views_netlistCheckerIntern (V := Definition.sub) (fun _ => rfl) (fun _ _ _ => rfl)
        (fun _ _ => rfl) hdefs
    obtain ⟨T0, hT0, hTT⟩ := mem_of_skeletons (skeletons_checkBodies hbodies) hT
    obtain ⟨k, hk⟩ := List.mem_iff_getElem?.mp hT0
    have hfresh : ∀ (k : Nat) (T : Definition), defs.2.2[k]? = some T →
        ∀ e ∈ T.sub, e.duplicate = false := by
      intro k T hT e he
      have := congrArg (·[k]?) hsub
      simp only [List.getElem?_map, hT] at this
      obtain ⟨T1, hT1, hsub1⟩ := Option.map_eq_some'.mp this.symm
      exact (hbod T1 (List.getElem?_mem hT1)).2 e (hsub1 ▸ he)
    rw [← keys_of_shapes (congrArg Prod.snd hTT)]
    exact ((checkBodies_zero rfl hbodies (by omega) (List.nodup_range _)).2 k
      (List.mem_range.mpr (List.getElem?_eq_some_iff.mp hk).1) T0 hk).2.2 (hfresh k T0 hk)

/-- When the line checks store nothing in `checker_sub_cycles`, no `Sub` line of the
top-level list they return names a template. -/
theorem checkLists_stored (h : checkLists available fuel L R = .ok (r, none, root, reg)) :
    ∀ d ∈ root, d.type = "Sub" → checkerGetSubcircuit reg d = none := by
  unfold checkLists at h
  obtain ⟨top, htop, h⟩ := bind_eq_ok.mp h
  obtain ⟨defs, hdefs, h⟩ := bind_eq_ok.mp h
  obtain ⟨bodies, hbodies, h⟩ := bind_eq_ok.mp h
  simp only [except_pure, Except.ok.injEq, Prod.mk.injEq] at h
  obtain ⟨-, hn, rfl, rfl⟩ := h
  obtain ⟨c0, s0, hc0, hs0, hst, -, hroot⟩ := netlistCheckerIntern_ok htop
  obtain ⟨-, -, -, -, -, -, hreg1⟩ := netlistCheckerIntern_ok hdefs
  have hreg := (skeletons_checkBodies hbodies).trans hreg1
  have hnone := checkerValidateSubcircuits_stored hs0
    (hst ▸ (Option.or_eq_none.mp (Option.or_eq_none.mp hn).2).2)
  intro d hd hsub
  obtain ⟨d0, hd0, hdd⟩ := mem_of_shapes (shapes_of_skeletons (hroot.trans hc0.symm)) hd
  exact checkerGetSubcircuit_none_of_skeletons hreg.symm hdd
    (hnone d0 hd0 ((shape_eq_iff.mp hdd).1.trans hsub))

end Pass

/-- A run of `netlist_checker` whose checks count no error accepts the globals it hands to the
expansion. -/
theorem netlistCheckerValidate_accepted {available : List Define} {fuel : Nat} {g g' : Globals}
    {r : Report} (h : netlistCheckerValidate available fuel g = .ok (r, g')) (h0 : r.errors = 0) :
    Accepted g'.definitionRoot g'.subcircuitRoot := by
  unfold netlistCheckerValidate at h
  obtain ⟨⟨r0, stored, root, reg⟩, hl, h⟩ := bind_eq_ok.mp h
  obtain ⟨actions, ha, h⟩ := bind_eq_ok.mp h
  cases h
  simp only [Report.append_errors] at h0
  exact (checkLists_accepted hl (by omega)).transfer (skeletons_checkerValidateActions ha)

/-- A run of `netlist_checker` whose checks count no error leaves every template body naming
templates that exist with the right arity, from which no cycle is reachable. -/
theorem netlistCheckerValidate_bodies {available : List Define} {fuel : Nat} {g g' : Globals}
    {r : Report} (h : netlistCheckerValidate available fuel g = .ok (r, g')) (h0 : r.errors = 0) :
    ∀ T ∈ g'.subcircuitRoot,
      SubsResolve g'.subcircuitRoot T.sub ∧ SubsAcyclic g'.subcircuitRoot T.sub := by
  unfold netlistCheckerValidate at h
  obtain ⟨⟨r0, stored, root, reg⟩, hl, h⟩ := bind_eq_ok.mp h
  obtain ⟨actions, -, h⟩ := bind_eq_ok.mp h
  cases h
  simp only [Report.append_errors] at h0
  exact checkLists_bodies hl (by omega)

/-- A registry whose every body names templates that exist and reach no cycle has no cycle at
all: the first edge of a cycle leaves a body line whose template reaches the cycle. -/
theorem acyclic_of_bodies {reg : List Definition}
    (hb : ∀ T ∈ reg, SubsResolve reg T.sub ∧ SubsAcyclic reg T.sub) (w : String) :
    ¬ TransGen (SubEdge reg) w w := by
  intro hw
  obtain ⟨c, ⟨T, hT, d, hd, hc⟩, hcw⟩ := TransGen.head'_iff.mp hw
  have hsub : d.type = "Sub" := by
    by_contra hne
    simp [subReference, hne] at hc
  have hTm := checkerFindSubcircuit_mem hT
  obtain ⟨T', hT', -⟩ := (hb T hTm).1 d hd hsub
  have hinst : T'.instance = c := by
    simp only [subReference, hsub, if_true] at hc
    simp only [checkerGetSubcircuit, hc, Option.some_bind] at hT'
    exact checkerFindSubcircuit_instance hT'
  exact (hb T hTm).2 d hd hsub T' hT' ⟨w, hinst ▸ hcw, hw⟩

end QucsNetlist
