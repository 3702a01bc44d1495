import ObjectModel.Proofs.Reordering.Mirror
import Mathlib.Order.Lattice.Nat

/-!
# Twins have the same values

Whatever a completed evaluation has found for one of two frames that cannot be told apart, it has
found for the other one (`Reference.Twinning.values`). Both answers were found in their own ways,
through bindings of other ranks, so the bindings are ranked anew: all twins of a slot get the least
rank that one of them has (`Reference.twinRank`). By induction on this rank the values of twins are
paired, and each answer reads through lower ranks (`Twinning.values_of_rank`). So an evaluation in
which twins are one frame never comes back to a binding that it waits for.
-/

set_option autoImplicit false

namespace ObjectModel

variable {env : Environment}

namespace Pairing

variable {ref : Reference env} {p : Pairing ref} {P Q : Slot → Prop} {x y v : ValueId}

/-! ## Reading in two completed evaluations -/

/-- What the completed evaluation reads through some bindings, its reference can read through the
given ones. -/
structure Reads (p : Pairing ref) (P Q : Slot → Prop) : Prop where
  aligned : p.Aligned
  completed : p.session.Completed env ref.start
  resolved : ∀ {x v : ValueId} {a b : Slot}, P a →
    p.session.nodes.node? x = some (.binding a (.resolved v)) → p.Slots a b →
      Q b ∧ ∃ y w, ref.session.nodes.node? y = some (.binding b (.resolved w)) ∧ p.Values v w
  /-- Equal literals may stand in for each other. -/
  constant : ∀ {b : Slot} {g : Frame} {i : Instr} {l : Literal}, ref.session.Located b g i →
    i.literal? = some l → Q b

namespace Reads

/-- What is recognized by a literal stands for that literal. -/
theorem exists_literal (h : p.Reads P Q) {l : Literal}
    (hy : ref.session.memoArg? y = some (.literal l)) :
    ∃ w, ref.session.nodes.Denotes Q y w ∧ ref.session.nodes.node? w = some (.literal l) := by
  have hlayout := ref.completed.sound.layout
  rcases Session.literal_of_memoArg? hlayout hy with hn | ⟨slot, state, g, i, hn, hloc, hlit⟩
  · exact ⟨y, .value ⟨_, hn, rfl⟩, hn⟩
  · obtain ⟨w, rfl⟩ := ref.completed.resolved hn
    obtain ⟨rank, -, -, hrank⟩ := ref.completed.explained.ranked
    exact ⟨w, .binding hn (h.constant hloc hlit) (hlayout.resolved hn), hrank.literal hn hloc hlit⟩

/-- Paired locals stand for paired values. -/
theorem denotes (h : p.Reads P Q) (hxy : p.Locals x y) (hd : p.session.nodes.Denotes P x v) :
    ∃ w, ref.session.nodes.Denotes Q y w ∧ p.Values v w := by
  cases hxy with
  | imported hlt =>
    cases hd.eq_of_isValue (h.aligned.sound.layout.imported hlt)
    exact ⟨x, .value (ref.completed.sound.layout.imported hlt), h.aligned.values_imported hlt⟩
  | binding hx hy hab =>
    obtain ⟨rfl, ha⟩ := hd.eq_of_binding hx
    obtain ⟨hb, y', w, hy', hv⟩ := h.resolved ha hx hab
    cases ref.completed.sound.layout.binding_unique hy hy'
    exact ⟨w, .binding hy' hb (ref.completed.sound.layout.resolved hy'), hv⟩
  | literal hx hy =>
    obtain ⟨rank, -, -, hrank⟩ := h.completed.explained.ranked
    have hv := hrank.literal_of_denotes h.aligned.sound.layout hx hd
    obtain ⟨w, hd', hw⟩ := h.exists_literal hy
    exact ⟨w, hd', .literal hv hw⟩

/-- Paired locals resolve to paired values. -/
theorem values_resolve (h : p.Reads (fun _ => True) fun _ => True) (hxy : p.Locals x y) :
    p.Values (p.session.nodes.resolve x) (ref.session.nodes.resolve y) := by
  obtain ⟨⟨m, hm⟩, -⟩ := h.aligned.exists_memoArg? hxy
  obtain ⟨n, hn, -⟩ := Option.map_eq_some_iff.1 hm
  obtain ⟨w, hw, hv⟩ :=
    h.denotes hxy (h.completed.whole.denotes (fun _ => trivial) (Arena.node?_lt hn))
  rw [Arena.resolve_of_denotes hw]
  exact hv

/-- Behind paired locals stand paired values, inside as many erased types. -/
theorem narrows (h : p.Reads P Q) {k : ℕ} (hk : p.session.nodes.Narrows P k x v)
    (hxy : p.Locals x y) : ∃ w, ref.session.nodes.Narrows Q k y w ∧ p.Values v w := by
  induction hk generalizing y with
  | stop hd hany =>
    obtain ⟨w, hd', hv⟩ := h.denotes hxy hd
    refine ⟨w, .stop hd' ?_, hv⟩
    intro z hz
    obtain ⟨n, m, hn, hm, halike⟩ := hv.nodes
    cases Option.some.inj (hm.symm.trans hz)
    cases halike with
    | any _ => exact hany _ hn
  | pass hd hany _ ih =>
    obtain ⟨w, hd', hv⟩ := h.denotes hxy hd
    obtain ⟨n, m, hn, hm, halike⟩ := hv.nodes
    cases Option.some.inj (hn.symm.trans hany)
    cases halike with
    | any hx =>
      obtain ⟨u, hu, huv⟩ := ih hx
      exact ⟨u, .pass hd' hm hu, huv⟩

/-- Paired tasks come to paired values. -/
theorem arrives (h : p.Reads P Q) (hxy : p.Locals x y) {t t' : Task} (ht : p.Tasks t t')
    (harr : t.Arrives p.session.nodes P x v) :
    ∃ w, t'.Arrives ref.session.nodes Q y w ∧ p.Values v w := by
  rw [Task.Arrives] at harr
  split at harr
  · rename_i hn
    obtain ⟨k, hk⟩ := harr
    obtain ⟨w, hw, hv⟩ := h.narrows hk hxy
    refine ⟨w, ?_, hv⟩
    rw [Task.Arrives, if_pos (ht.narrows.trans hn)]
    exact ⟨k, hw⟩
  · rename_i hn
    obtain ⟨w, hw, hv⟩ := h.denotes hxy harr
    refine ⟨w, ?_, hv⟩
    rw [Task.Arrives, if_neg (by rw [ht.narrows]; exact hn)]
    exact hw

end Reads

end Pairing

namespace Reference

variable {ref : Reference env} {S : ℕ → ℕ → Prop} {rank : Slot → ℕ} {a b c : Slot}

/-! ## Ranks of twins -/

/-- The least rank of a twin of the slot. -/
noncomputable def twinRank (ref : Reference env) (S : ℕ → ℕ → Prop) (rank : Slot → ℕ) (b : Slot) :
    ℕ :=
  sInf { n | ∃ a, (ref.mirror S).Slots a b ∧ rank a = n }

theorem twinRank_le (hab : (ref.mirror S).Slots a b) : ref.twinRank S rank b ≤ rank a :=
  Nat.sInf_le ⟨a, hab, rfl⟩

namespace Twinning

theorem slots_symm (h : ref.Twinning S) (hab : (ref.mirror S).Slots a b) :
    (ref.mirror S).Slots b a :=
  (Reference.slots_symm h.aligned hab).mono (mirror_mono h.symm)

theorem slots_trans (h : ref.Twinning S) (hab : (ref.mirror S).Slots a b)
    (hbc : (ref.mirror S).Slots b c) : (ref.mirror S).Slots a c :=
  Pairing.Slots.mono (Pairing.Slots.along hab hbc) (Pairing.extends_along h.trans)

/-- A slot of a frame is its own twin. -/
theorem slots_self (h : ref.Twinning S) {f : Frame} {i : Instr} (ha : ref.session.Located a f i) :
    (ref.mirror S).Slots a a :=
  .intro (h.refl ha.frame) ha.frame

/-- Twins belong to one instruction. -/
theorem located (h : ref.Twinning S) (hab : (ref.mirror S).Slots a b) {f : Frame} {i : Instr}
    (ha : ref.session.Located a f i) :
    ∃ g, (ref.mirror S).Frames a.frame b.frame f g ∧ ref.session.Located b g i := by
  obtain ⟨g, hfg, hb⟩ := h.aligned.located hab ha
  rw [Instr.move_refl] at hb
  exact ⟨g, hfg, hb⟩

/-- Some twin has the least rank. -/
theorem exists_twinRank (h : ref.Twinning S) (rank : Slot → ℕ) {f : Frame} {i : Instr}
    (hb : ref.session.Located b f i) :
    ∃ a, (ref.mirror S).Slots a b ∧ rank a = ref.twinRank S rank b := by
  have hne : { n | ∃ a, (ref.mirror S).Slots a b ∧ rank a = n }.Nonempty :=
    ⟨rank b, b, h.slots_self hb, rfl⟩
  exact Nat.sInf_mem hne

/-- All twins have one rank. -/
theorem twinRank_eq (h : ref.Twinning S) (hab : (ref.mirror S).Slots a b) :
    ref.twinRank S rank a = ref.twinRank S rank b := by
  refine congrArg sInf (Set.ext fun n => ?_)
  constructor
  · rintro ⟨c, hca, rfl⟩
    exact ⟨c, h.slots_trans hca hab, rfl⟩
  · rintro ⟨c, hcb, rfl⟩
    exact ⟨c, h.slots_trans hcb (h.slots_symm hab), rfl⟩

/-! ## Values of twins -/

/-- Instances that answer paired instantiations are twins. -/
theorem frames_of_key (h : ref.Twinning S) {target : Name} {xs ys : List ValueId}
    (hxy : List.Forall₂ (ref.mirror S).Locals xs ys) {k l : ℕ} {f g : Frame} {key key' : MemoKey}
    (hf : ref.session.frames[k]? = some f) (hfname : f.cls.name = target)
    (hkey : ref.session.memoKey? target xs = some key)
    (hfkey : ref.session.memoKey? target f.params.toList = some key)
    (hg : ref.session.frames[l]? = some g) (hgname : g.cls.name = target)
    (hkey' : ref.session.memoKey? target ys = some key')
    (hgkey : ref.session.memoKey? target g.params.toList = some key') :
    (ref.mirror S).Frames k l f g := by
  have hlayout := ref.completed.sound.layout
  have hcls : g.cls = f.cls := by
    have hknown := hlayout.known hg
    rw [hgname, ← hfname, hlayout.known hf] at hknown
    exact (Option.some.inj hknown).symm
  -- The parameters of either frame are recognized by the same as the arguments.
  have hsymm : ∀ {x y}, (ref.mirror S).Locals x y → (ref.mirror S).Locals y x :=
    fun hx => (locals_symm h.aligned hx).mono (mirror_mono h.symm)
  have hright := h.aligned.locals_params hxy hkey' hgkey
  have hleft := h.aligned.locals_params (hright.flip.imp fun _ _ hx => hsymm hx) hkey hfkey
  have hkl := h.keyed hf hg hcls (hleft.flip.imp fun _ _ hx => hsymm hx)
  obtain ⟨f', g', hfg⟩ := h.frames hkl
  cases Option.some.inj (hf.symm.trans hfg.left)
  cases Option.some.inj (hg.symm.trans hfg.right)
  exact hfg

/-- Paired requests of twins are answered by paired values, and what answers the one through some
bindings answers the other one through their twins. -/
theorem answers (h : ref.Twinning S) {P P' Q : Slot → Prop} (hreads : (ref.mirror S).Reads P Q)
    {req req' : Request} {t u x y : ValueId} {f : Frame} {i : Instr}
    (hans : ref.session.Answers ref.env' P req t) (hans' : ref.session.Answers ref.env' P' req' u)
    (hreq : (ref.mirror S).Requests req req') (hserves : req.Serves i)
    (hab : (ref.mirror S).Slots a b) (ha : ref.session.Located a f i)
    (hx : ref.session.nodes.node? x = some (.binding a (.resolved t)))
    (hy : ref.session.nodes.node? y = some (.binding b (.resolved u))) :
    (ref.mirror S).Values t u ∧ ref.session.Answers ref.env' Q req' u := by
  -- By induction on the first answer: both go through the same tasks.
  induction hans generalizing req' with
  | produce ht hnb =>
    cases hreq with
    | produce halike =>
      cases hans' with
      | produce hu hmb =>
        refine ⟨⟨?_, _, _, ht, hu, halike⟩, .produce hu hmb⟩
        cases hserves with
        | literal l _ _ =>
          cases halike
          exact .literal ht hu
        | built hbuilds _ =>
          obtain ⟨g, -, hb⟩ := h.located hab ha
          exact .built hab ⟨⟨x, hx⟩, f, i, ha, hbuilds⟩ ⟨⟨y, hy⟩, g, i, hb, hbuilds⟩
  | forward _ =>
    cases hreq with
    | forward hv =>
      cases hans' with
      | forward hu => exact ⟨hv, .forward hu⟩
  | create hf hname hkey hfkey =>
    cases hreq with
    | create target hxy =>
      cases hans' with
      | create hg hname' hkey' hgkey =>
        have hfg := h.frames_of_key hxy hf hname hkey hfkey hg hname' hkey' hgkey
        exact ⟨hfg.object h.aligned, .create hg hname' hkey' hgkey⟩
  | @await task _ v _ harr hans ih =>
    cases hreq with
    | await htask hfocus =>
      cases hans' with
      | await harr' hans' =>
        obtain ⟨w, harr'', hv⟩ := hreads.arrives hfocus htask harr
        cases harr''.unique harr'
        have hserves' := (Task.resumes_resume ref.env' ref.session.nodes v task).serves hserves.task
        obtain ⟨hvalues, hans''⟩ := ih hans' (hv.resume htask hans'.ne_fail) hserves' hx
        exact ⟨hvalues, .await harr'' hans''⟩

/-- Twins of which one has a given rank have paired values, and the value of the other one answers
its instruction through slots that have twins of lower rank. -/
theorem values_of_rank (h : ref.Twinning S) (hrank : ref.session.Ranked ref.env' rank) (n : ℕ)
    {x y t u : ValueId} {f g : Frame} {i : Instr} (hab : (ref.mirror S).Slots a b) (hn : rank a = n)
    (hx : ref.session.nodes.node? x = some (.binding a (.resolved t)))
    (hy : ref.session.nodes.node? y = some (.binding b (.resolved u)))
    (ha : ref.session.Located a f i) (hb : ref.session.Located b g i) :
    (ref.mirror S).Values t u ∧
      ref.session.Answers ref.env' (fun c => ref.twinRank S rank c < n) (g.start ref.env' i) u := by
  induction n using Nat.strong_induction_on generalizing a b x y t u f g i with
  | _ n ih =>
    cases hlit : i.literal? with
    | some l =>
      -- A constant reads nothing.
      have hu := hrank.literal hy hb hlit
      refine ⟨.literal (hrank.literal hx ha hlit) hu, ?_⟩
      rw [Frame.start_of_literal? hlit]
      exact .produce hu rfl
    | none =>
      have hpos : 0 < n := by
        apply Nat.pos_of_ne_zero
        intro hzero
        obtain ⟨l, hl⟩ := (hrank.constant hx ha).1 (hn.trans hzero)
        rw [hlit] at hl
        cases hl
      have hreads : (ref.mirror S).Reads (fun c => rank c < n)
          (fun c => ref.twinRank S rank c < n) :=
        { aligned := h.aligned
          completed := ref.completed
          resolved := by
            intro z v c d hc hz hcd
            obtain ⟨f', i', hloc⟩ := Session.Located.of_binding ref.completed.sound.layout hz
            obtain ⟨g', -, hloc'⟩ := h.located hcd hloc
            obtain ⟨z', w, hz'⟩ := ref.completed.known hloc'
            refine ⟨Nat.lt_of_le_of_lt (twinRank_le hcd) hc, z', w, hz', ?_⟩
            exact (ih _ hc hcd rfl hz hz' hloc hloc').1
          constant := by
            intro d g' i' l hloc hl
            obtain ⟨z, w, hz⟩ := ref.completed.known hloc
            have hzero := (hrank.constant hz hloc).2 ⟨l, hl⟩
            exact Nat.lt_of_le_of_lt (twinRank_le (h.slots_self hloc)) (hzero ▸ hpos) }
      obtain ⟨g', hfg, hb'⟩ := h.located hab ha
      cases (hb.unique hb').1
      have hi : i ∈ f.cls.instrs := Array.mem_of_getElem? ha.instr
      have hans := hrank.answers hx ha
      have hans' := hrank.answers hy hb
      rw [hn] at hans
      have hreq := hfg.start h.aligned hi (by rw [Instr.move_refl]; exact hans'.ne_fail)
      rw [Instr.move_refl] at hreq
      have hstarts : f.Starts ref.env' i (f.start ref.env' i) :=
        Frame.starts_start (ref.completed.sound.layout.params_size ha.frame) hi
      exact h.answers hreads hans hans' hreq hstarts.serves hab ha hx hy

/-- Twins have paired values. -/
theorem values (h : ref.Twinning S) (hab : (ref.mirror S).Slots a b) {x t : ValueId}
    (hx : ref.session.nodes.node? x = some (.binding a (.resolved t))) :
    ∃ y u, ref.session.nodes.node? y = some (.binding b (.resolved u)) ∧
      (ref.mirror S).Values t u := by
  obtain ⟨f, i, ha⟩ := Session.Located.of_binding ref.completed.sound.layout hx
  obtain ⟨g, -, hb⟩ := h.located hab ha
  obtain ⟨y, u, hy⟩ := ref.completed.known hb
  obtain ⟨rank, -, -, hrank⟩ := ref.completed.explained.ranked
  exact ⟨y, u, hy, (h.values_of_rank hrank _ hab rfl hx hy ha hb).1⟩

/-- The value of every binding answers its instruction through bindings that have a lower rank
among twins. -/
theorem ranked (h : ref.Twinning S) (hrank : ref.session.Ranked ref.env' rank) :
    ref.session.Ranked ref.env' (ref.twinRank S rank) := by
  -- Every slot has a twin whose own rank is that of all twins.
  have htwin : ∀ {b f i}, ref.session.Located b f i → ∃ a g x t, (ref.mirror S).Slots a b ∧
      rank a = ref.twinRank S rank b ∧ ref.session.Located a g i ∧
        ref.session.nodes.node? x = some (.binding a (.resolved t)) := by
    intro b f i hb
    obtain ⟨a, hab, ha⟩ := h.exists_twinRank rank hb
    obtain ⟨g, -, hloc⟩ := h.located (h.slots_symm hab) hb
    obtain ⟨x, t, hx⟩ := ref.completed.known hloc
    exact ⟨a, g, x, t, hab, ha, hloc, hx⟩
  constructor
  · intro y u b f i hy hb
    obtain ⟨a, g, x, t, hab, hn, ha, hx⟩ := htwin hb
    exact (h.values_of_rank hrank _ hab hn hx hy ha hb).2
  · intro y u b f i hy hb
    obtain ⟨a, g, x, t, -, hn, ha, hx⟩ := htwin hb
    rw [← hn]
    exact hrank.constant hx ha

end Twinning

end Reference

end ObjectModel
