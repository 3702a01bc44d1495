import ObjectModel.Proofs.Session.Progress
import ObjectModel.Proofs.Safety

/-!
# Termination

A request under a limit on instances comes to an end, whatever its classes do: with enough steps it
has a result or an error, which more steps do not change (`Evaluator.instantiateName_terminates`).
So do the loops inside it that are carried out for so many rounds at most: following resolved
bindings (`Arena.FollowEnds`) and discovering what a parameter leads to (`discover_add`).
-/

set_option autoImplicit false

namespace ObjectModel

/-! ## Following bindings -/

namespace Arena

variable {a : Arena}

/-- Following resolved bindings comes to an end: it stays where it is when it may go on for
longer. -/
def FollowEnds (a : Arena) : Prop := ∀ k id, a.follow (a.size + k) id = a.resolve id

theorem follow_of_isValue {id : ValueId} (h : a.IsValue id) (n : ℕ) : a.follow n id = id := by
  obtain ⟨m, hm, hb⟩ := h
  cases n with
  | zero => rfl
  | succ n =>
    rw [follow, hm]
    cases m <;> simp_all [Node.isBinding]

theorem follow_succ (hres : ∀ {id t : ValueId} {slot : Slot},
    a.node? id = some (.binding slot (.resolved t)) → a.IsValue t) (n : ℕ) (id : ValueId) :
    a.follow (n + 1) id = a.follow 1 id := by
  rw [follow, follow]
  split
  · rename_i slot t hn
    rw [follow_of_isValue (hres hn), follow_of_isValue (hres hn)]
  · rfl

/-- Following ends if every binding names a value. -/
theorem followEnds_of_resolved (hres : ∀ {id t : ValueId} {slot : Slot},
    a.node? id = some (.binding slot (.resolved t)) → a.IsValue t) : a.FollowEnds := by
  intro k id
  rw [resolve]
  cases hsize : a.size with
  | zero =>
    -- There is nothing to follow in an empty arena.
    have hnone : a.node? id = none := Array.getElem?_eq_none (by omega)
    cases k with
    | zero => rfl
    | succ k => simp only [follow, hnone]
  | succ m =>
    have hsum : m + 1 + k = m + k + 1 := by omega
    rw [hsum, follow_succ hres (m + k), follow_succ hres m]

theorem SelfContained.followEnds (h : a.SelfContained) : a.FollowEnds := by
  apply followEnds_of_resolved
  intro id t slot hn
  have := h.value hn
  cases this

theorem Whole.followEnds (h : a.Whole) : a.FollowEnds := by
  apply followEnds_of_resolved
  intro id t slot hn
  obtain ⟨t', heq, ht⟩ := h.resolved hn
  cases heq
  exact ht

end Arena

theorem Session.Sound.followEnds {env : Environment} {start : ℕ} {s : Session}
    (h : s.Sound env start) : s.nodes.FollowEnds :=
  Arena.followEnds_of_resolved h.layout.resolved

/-! ## Discovery -/

/-- A node that gets a copy takes its references out of the budget, also if it is not there. -/
theorem pending_insert_le (source : Arena) {g : GraphId} {copies : Index Value ValueId}
    {id c : ValueId} (hnew : copies.get? ⟨g, id⟩ = none) :
    source.childCount id.index + pending source g (copies.insert ⟨g, id⟩ c) ≤
      pending source g copies := by
  by_cases hid : id.index < source.size
  · exact (pending_insert hid hnew).le
  · have hcount : source.childCount id.index = 0 := by
      rw [Arena.childCount, Arena.node?, Array.getElem?_eq_none (Nat.not_lt.1 hid)]
      rfl
    rw [hcount, Nat.zero_add, pending, pending]
    apply Finset.sum_le_sum_of_subset
    intro i hi
    simp only [Finset.mem_filter, Index.get?_insert] at hi ⊢
    obtain ⟨hlt, hget⟩ := hi
    split at hget
    · cases hget
    · exact ⟨hlt, hget⟩

/-- A discovery ends before its fuel does if that exceeds the positions that wait and the references
that are still to be read: more fuel changes nothing. -/
theorem discover_add (source : Arena) (g : GraphId) (fuel k : ℕ) (waiting : List ValueId)
    (next : ℕ) (order : Array ValueId) (copies : Index Value ValueId)
    (hfuel : waiting.length + pending source g copies < fuel) :
    discover source g (fuel + k) waiting next order copies =
      discover source g fuel waiting next order copies := by
  induction fuel generalizing waiting next order copies with
  | zero => exact absurd hfuel (Nat.not_lt_zero _)
  | succ fuel ih =>
    rw [Nat.succ_add]
    cases waiting with
    | nil => rfl
    | cons x waiting =>
      rw [List.length_cons] at hfuel
      rw [discover, discover]
      dsimp only
      split
      · exact ih _ _ _ _ (by omega)
      · rename_i hnew
        apply ih
        have hbudget := pending_insert_le source (c := ⟨next⟩) hnew
        have hcount : ((source.node? (source.resolve x)).elim [] Node.children).length =
            source.childCount (source.resolve x).index := rfl
        rw [List.length_append, List.length_reverse, hcount]
        omega

/-! ## Evaluations -/

namespace Environment

variable {env : Environment} {nodes : Arena} {target : Name} {args : List ValueId} {f : Frame}
  {s : Session}

/-- Under a limit on instances an evaluation with enough steps has a result or an error, which more
steps do not change. -/
theorem exists_evaluate {max : ℕ} (hmax : env.limits.instances = some max)
    (hnodes : nodes.SelfContained) (hargs : ∀ id ∈ args, id.index < nodes.size)
    (table : TableId) (target : Name) :
    ∃ bound r, (∀ steps, bound ≤ steps → env.evaluate table nodes target args steps = r) ∧
      ((∃ result, r = .ok result) ∨ ∃ err, r = .error (.error err)) := by
  cases hc : Session.creation env { nodes } target args with
  | error f =>
    obtain ⟨err, rfl, -⟩ := Session.specific_of_creation hargs hc
    refine ⟨0, .error (.error err), ?_, Or.inr ⟨err, rfl⟩⟩
    intro steps _
    rw [evaluate, complete, Session.createObject, hc]
    rfl
  | ok c =>
    obtain ⟨f, -, hopens⟩ := opens_of_creation hc
    obtain ⟨r, n, hrun⟩ := (hopens.regular hnodes).exists_ends hmax
    have hcomplete : ∀ steps, n ≤ steps → env.complete nodes target args steps =
        r.map fun s => ((Session.create { nodes } c).1, s) := by
      intro steps hle
      rw [complete_of_creation hc, Session.runFor_of_le hle hrun]
      rfl
    cases r with
    | error f' =>
      obtain ⟨err, rfl, -⟩ := (hopens.sound hnodes).specific_of_ends ⟨n, hrun⟩
      refine ⟨n, .error (.error err), ?_, Or.inr ⟨err, rfl⟩⟩
      intro steps hle
      rw [evaluate, hcomplete steps hle]
      rfl
    | ok s =>
      have hwhole := (hopens.ends hnodes ⟨n, hrun⟩).2.whole
      refine ⟨n, .ok ({ nodes := s.nodes.finish, table := some table, stats := s.stats },
        (Session.create { nodes } c).1), ?_, Or.inl ⟨_, rfl⟩⟩
      intro steps hle
      rw [evaluate, hcomplete steps hle]
      simp only [Except.map, bind, Except.bind, hwhole.sealed]
      rfl

end Environment

/-! ## Requests -/

namespace Evaluator

variable {e : Evaluator} {w : Workspace} {n : Name} {params : List (Option Value)}

/-- With enough steps a request under a limit on instances has a result or an error. -/
theorem exists_instantiateName_eq {max : ℕ} (hmax : e.limits.instances = some max) (hw : w.Whole)
    (hparams : ∀ v, some v ∈ params → w.Holds v) :
    ∃ bound w' r, (∀ steps, bound ≤ steps → e.instantiateName w n params steps = (w', r)) ∧
      ((∃ v, r = .ok v) ∨ ∃ err, r = .error (.error err)) := by
  rcases hprepare : e.prepare w n params with ⟨w₁, f | p⟩
  · obtain ⟨err, rfl, -⟩ := prepare_error_specific hw hparams hprepare
    refine ⟨0, w₁, .error (.error err), ?_, Or.inr ⟨err, rfl⟩⟩
    intro steps _
    rw [instantiateName, hprepare]
  · have hp := prepare_eq_ok hprepare
    have hlimit : p.env.limits.instances = some max := by rw [hp.limits, hmax]
    obtain ⟨bound, r, heval, hr⟩ := Environment.exists_evaluate hlimit hp.nodes
      (args_lt_of_prepare hw hparams hprepare) e.table n
    rcases hr with ⟨⟨g, root⟩, rfl⟩ | ⟨err, rfl⟩
    · refine ⟨bound, (w₁.addGraph g root).2, .ok (w₁.addGraph g root).1, ?_, Or.inl ⟨_, rfl⟩⟩
      intro steps hle
      rw [instantiateName_of_prepare hprepare, heval steps hle]
    · refine ⟨bound, w₁, .error (.error err), ?_, Or.inr ⟨err, rfl⟩⟩
      intro steps hle
      rw [instantiateName_of_prepare hprepare, heval steps hle]

/-- With a limit on instances every request comes to an end, whatever the limit on demands is. With
enough steps it has a result or an error, which more steps do not change. Its evaluation ends and
evaluates so many instructions at most as the limit admits instances of the longest body, none of
them twice, however long it goes on. The discovery of what a parameter leads to ends, and so does
following bindings: in the graphs of the parameters, in the copies and in every state of the
evaluation. -/
theorem instantiateName_terminates {max : ℕ} (hmax : e.limits.instances = some max) (hw : w.Built)
    (hparams : ∀ v, some v ∈ params → w.Holds v) :
    (∃ bound w' r, (∀ steps, bound ≤ steps → e.instantiateName w n params steps = (w', r)) ∧
      ((∃ v, r = .ok v) ∨ ∃ err, r = .error (.error err))) ∧
    (∀ {w₁ : Workspace} {p : Preparation} {f : Frame} {s₀ : Session},
      e.prepare w n params = (w₁, .ok p) → p.env.Opens p.nodes n p.args f s₀ →
        (∃ r, s₀.Ends p.env r) ∧
        (∀ k, (s₀.trace p.env k).Nodup ∧
          (s₀.trace p.env k).length ≤ max * (w.table e.table).longestBody) ∧
        ∀ {s}, Session.Reaches p.env s₀ s → s.nodes.FollowEnds) ∧
    (∀ {present : List (Decl × Value)} {w₁ : Workspace} {ids : List ValueId} {intake : Intake},
      Intake.addParams e.table present w {} = (w₁, .ok (ids, intake)) →
        intake.nodes.FollowEnds) ∧
    ∀ g, (w.graph g).nodes.FollowEnds ∧ ∀ root next copies k,
      discover (w.graph g).nodes g ((w.graph g).nodes.referenceCount + 2 + k) [root] next #[]
          copies =
        discover (w.graph g).nodes g ((w.graph g).nodes.referenceCount + 2) [root] next #[]
          copies := by
  refine ⟨exists_instantiateName_eq hmax hw.whole hparams, ?_, ?_, ?_⟩
  · intro w₁ p f s₀ hprepare hopens
    have hp := prepare_eq_ok hprepare
    have hlimit : p.env.limits.instances = some max := by rw [hp.limits, hmax]
    have hregular := hopens.regular hp.nodes
    refine ⟨hregular.exists_ends hlimit, fun k => ⟨(hregular.trace_nodup k).1, ?_⟩, ?_⟩
    · rw [← hp.classes]
      exact hregular.trace_length_le hlimit k
    · intro s hreach
      exact (hregular.reaches hreach).sound.followEnds
  · intro present w₁ ids intake hadd
    exact (Intake.inOrder_empty.addParams hadd).nodes.followEnds
  · intro g
    refine ⟨(hw.whole g).followEnds, ?_⟩
    intro root next copies k
    apply discover_add
    have hle := pending_le_referenceCount (w.graph g).nodes g copies
    rw [List.length_singleton]
    omega

end Evaluator

namespace Sample

/-- A class that instantiates itself with its parameter in one more erased type. -/
def nest : ClassDef where
  interner := ⟨0⟩
  name := ⟨1⟩
  params := [⟨⟨2⟩, .any⟩]
  fields := [⟨⟨2⟩, .any⟩]
  instrs := #[.any (.param 0), .object ⟨1⟩ [.instr 0]]
  yields := [.instr 1]
  valid := ⟨by decide, by decide, by decide, by decide, rfl, by decide⟩

def nestTable : ClassTable where
  interner := ⟨0⟩
  classes := [nest]
  names_nodup := by decide
  interner_eq := by decide

/-- A workspace with the table of the class and a truth value. -/
def nested : Workspace :=
  ((((["Nest", "item"].foldl (fun w s => (w.intern ⟨0⟩ s).2) (Workspace.addInterner {}).2).addTable
    nestTable).2).addLiteral (.bool true)).2

def threefold : Evaluator := { table := ⟨0⟩, limits := { instances := some 3 } }

theorem built_nested : nested.Built :=
  .addLiteral _ (.addTable _ (.intern _ _ (.intern _ _ (.addInterner .empty))))

theorem holds_nested : ∀ v, some v ∈ [some truth] → nested.Holds v := by
  intro v hv
  cases List.mem_singleton.1 hv
  exact ⟨.literal (.bool true), rfl, rfl⟩

/-- The class would go on for ever. With three instances its evaluation ends. -/
theorem nest_terminates : threefold.limits.instances = some 3 ∧ nested.Built ∧
    (∀ v, some v ∈ [some truth] → nested.Holds v) ∧
    (threefold.instantiateName nested ⟨1⟩ [some truth] 30).2 =
      .error (.error (.ofKind (.instanceLimit 3))) ∧
    ∃ bound w r, (∀ steps, bound ≤ steps →
      threefold.instantiateName nested ⟨1⟩ [some truth] steps = (w, r)) ∧
        ((∃ v, r = .ok v) ∨ ∃ err, r = .error (.error err)) :=
  ⟨rfl, built_nested, holds_nested, by decide +kernel,
    (Evaluator.instantiateName_terminates rfl built_nested holds_nested).1⟩

end Sample

end ObjectModel
