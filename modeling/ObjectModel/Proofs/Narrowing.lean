import ObjectModel.Proofs.Intake.Tracing
import ObjectModel.Proofs.Rendering
import ObjectModel.Proofs.Session.Forcing

/-!
# Looking through erased types

Erased types are looked through in three places: by the downcasts of a reader
(`View.ReadsThrough`), by the type of a parameter that is copied (`Intake.TypesThrough`) and by the
operands of an instruction, while their payloads are evaluated (`Session.ForcesThrough`). Each place
counts its looks in its own way, and each one stops at the first value that is no erased type,
however many stand around it, or at an erased type if they loop (`narrowing_exact`).
-/

set_option autoImplicit false

namespace ObjectModel

/-! ## Downcasts -/

namespace View

variable {v : View} {x y : ValueId}

/-- The errors of the downcasts of an erased type. -/
structure Refuses (v : View) (x : ValueId) : Prop where
  asLiteral : v.asLiteral x = .error (.ofKind (.typeMismatch "attribute" "any"))
  asInt : v.asInt x = .error (.ofKind (.typeMismatch "integer" "any"))
  asObject : v.asObject x = .error (.ofKind (.typeMismatch "object" "any"))
  asList : v.asList x = .error (.ofKind (.typeMismatch "list" "any"))

/-- Two values give the same to every downcast that looks through erased types. -/
structure SameDowncasts (v : View) (x y : ValueId) : Prop where
  asLiteral : v.asLiteral x = v.asLiteral y
  asInt : v.asInt x = v.asInt y
  asObject : v.asObject x = v.asObject y
  asList : v.asList x = v.asList y

/-- The downcasts look through all erased types around a value. -/
structure ReadsThrough (v : View) : Prop where
  /-- They stop at the first value that is no erased type. -/
  stops : ∀ {k : ℕ} {x u : ValueId}, v.nodes.IsValue x →
    v.nodes.Narrows (fun _ => True) k x u → v.nodes.narrow x = u
  /-- There is such a value, or the erased types loop. -/
  either : ∀ {x : ValueId}, v.nodes.IsValue x →
    (∃ k u, v.nodes.Narrows (fun _ => True) k x u) ∨ v.nodes.Loops x
  /-- Where they loop, the downcasts end on an erased type and fail. -/
  loops : ∀ {x : ValueId}, v.nodes.Loops x →
    (∃ p, v.node? (v.nodes.narrow x) = some (.any p)) ∧ v.Refuses x
  /-- A value in erased types gives the same as the value itself. -/
  transparent : ∀ {x y : ValueId}, Relation.ReflTransGen v.nodes.Wraps x y → v.SameDowncasts x y

/-- The downcasts read what stands behind the erased types and nothing else. -/
theorem sameDowncasts_of_narrow (h : v.nodes.narrow x = v.nodes.narrow y) :
    v.SameDowncasts x y where
  asLiteral := by simp only [View.asLiteral, h]
  asInt := by simp only [View.asInt, h]
  asObject := by simp only [View.asObject, h]
  asList := by simp only [View.asList, h]

theorem refuses_of_loops (h : v.nodes.Loops x) : v.Refuses x := by
  obtain ⟨p, hp⟩ := h.narrow
  have hnode : v.node? (v.nodes.narrow x) = some (.any p) := hp
  have hkind : v.nodes.kind (v.nodes.narrow x) = "any" := by
    simp [Arena.kind, hp, Node.kind]
  constructor
  · simp only [View.asLiteral, hnode, mismatch, hkind]
  · simp only [View.asInt, hnode, mismatch, hkind]
  · simp only [View.asObject, hnode, mismatch, hkind]
  · simp only [View.asList, hnode, mismatch, hkind]

/-- In a sealed graph one erased type more makes no difference. -/
theorem sameDowncasts_of_wraps (hv : v.nodes.Sealed) (h : v.nodes.Wraps x y) :
    v.SameDowncasts x y := by
  obtain ⟨p, hp, rfl⟩ := h
  have hpayload : v.nodes.IsValue p := hv.children hp p (List.mem_singleton_self p)
  rw [hpayload.resolve]
  rcases hv.whole.narrows_or_loops hpayload with ⟨k, u, hn⟩ | hloops
  · -- The same value stands behind both.
    have hx : v.nodes.Narrows (fun _ => True) (k + 1) x u :=
      .pass (.value ⟨_, hp, rfl⟩) hp hn
    have hxu := Arena.narrow_of_narrows hx
    have hpu := Arena.narrow_of_narrows hn
    rw [Arena.resolve_of_isBinding_eq_false hp rfl] at hxu
    rw [hpayload.resolve] at hpu
    exact sameDowncasts_of_narrow (hxu.trans hpu.symm)
  · have hp' := refuses_of_loops hloops
    have hx' := refuses_of_loops (hloops.of_wraps ⟨p, hp, hpayload.resolve⟩)
    exact ⟨hx'.asLiteral.trans hp'.asLiteral.symm, hx'.asInt.trans hp'.asInt.symm,
      hx'.asObject.trans hp'.asObject.symm, hx'.asList.trans hp'.asList.symm⟩

theorem readsThrough (hv : v.nodes.Sealed) : v.ReadsThrough where
  stops := by
    intro k x u hx hn
    have hu := Arena.narrow_of_narrows hn
    rwa [hx.resolve] at hu
  either := hv.whole.narrows_or_loops
  loops hloops := ⟨hloops.narrow, refuses_of_loops hloops⟩
  transparent := by
    intro x y hxy
    induction hxy with
    | refl => exact ⟨rfl, rfl, rfl, rfl⟩
    | tail _ hlast ih =>
      have h := sameDowncasts_of_wraps hv hlast
      exact ⟨ih.asLiteral.trans h.asLiteral, ih.asInt.trans h.asInt,
        ih.asObject.trans h.asObject, ih.asList.trans h.asList⟩

end View

/-! ## Types of parameters -/

/-- The type behind the erased types around a value, by a loop that counts them and gives up where
there were more of them than nodes. -/
def Arena.typeCounting (a : Arena) (steps : ℕ) (id : ValueId) : Ty :=
  match a.node? id with
  | some (.any payload) =>
    if a.size < steps then .any else a.typeCounting (steps + 1) (a.resolve payload)
  | some n => n.type
  | none => .any
termination_by a.size + 1 - steps

/-- The loop makes as many looks as are left to it. -/
theorem Arena.typeCounting_eq {a : Arena} {steps n : ℕ} (h : steps + n = a.size + 1)
    (id : ValueId) :
    a.typeCounting steps id = ((a.node? (a.unwrap n id)).map Node.type).getD .any := by
  induction n generalizing steps id with
  | zero =>
    rw [typeCounting, unwrap]
    cases hn : a.node? id with
    | none => simp
    | some m =>
      cases m with
      | any payload =>
        -- No look is left, and the type of an erased type is that of every value.
        simp only
        rw [if_pos (by omega)]
        rfl
      | _ => simp
  | succ n ih =>
    rw [typeCounting, unwrap]
    cases hn : a.node? id with
    | none => simp [hn]
    | some m =>
      cases m with
      | any payload =>
        simp only
        rw [if_neg (by omega)]
        exact ih (by omega) _
      | _ => simp [hn]

namespace Intake

/-- The type of a copied value is that of the first value that is no erased type, or that of an
erased type if they loop. -/
structure TypesThrough (w : Workspace) (intake : Intake) (v : Value) (id : ValueId) : Prop where
  /-- It may be found by counting the erased types. -/
  counted : intake.nodes.typeCounting 0 (intake.nodes.resolve id) = intake.runtimeType id
  /-- The value behind the original has its copy behind as many erased types, and the type is that
  of the copy. -/
  stops : ∀ {k : ℕ} {u : ValueId}, (w.graph v.graph).nodes.Narrows (fun _ => True) k v.id u →
    ∃ c n, intake.copies.get? ⟨v.graph, u⟩ = some c ∧
      intake.nodes.Narrows (fun _ => True) k id c ∧ intake.nodes.node? c = some n ∧
        intake.runtimeType id = n.type
  loops : (w.graph v.graph).nodes.Loops v.id →
    intake.nodes.Loops id ∧ intake.runtimeType id = .any

variable {w w₁ w₂ : Workspace} {target : TableId} {intake intake' : Intake} {v : Value}
  {id : ValueId}

/-- Whatever was copied before, the type of a value that is copied is found behind all erased
types. -/
theorem Traces.typesThrough (h : Traces w w₁ target intake) (hw : w.Whole) (hv : w.Holds v)
    (hadd : Intake.add target w₁ intake v = (w₂, .ok (id, intake'))) :
    intake'.TypesThrough w v id := by
  obtain ⟨htraces, hid⟩ := h.add hw hv hadd
  have hvalue := htraces.order.nodes.isValue (htraces.order.copies hid)
  refine ⟨Arena.typeCounting_eq (Nat.zero_add _) _, fun {k u} hn => ?_, fun hloops => ?_⟩
  · have hv' : (w.graph v.graph).nodes.resolve v.id = v.id := hv.resolve
    obtain ⟨c, hc, hnarrows⟩ := htraces.narrows hn (c := id) (by rw [hv']; exact hid)
    obtain ⟨n, hn, -⟩ := hnarrows.isValue
    exact ⟨c, n, hc, hnarrows, hn, runtimeType_of_narrows hnarrows hn⟩
  · have hcopy := htraces.loops hid hloops
    refine ⟨hcopy, runtimeType_of_loops ?_⟩
    rwa [hvalue.resolve]

end Intake

/-! ## Operands -/

/-- A task that looks through erased types goes on at the first value behind them. -/
structure Session.ForcesThrough (env : Environment) (s : Session) : Prop where
  /-- Wherever it goes on, it has looked through each erased type once and hands that value to its
  instruction, or the erased types loop. -/
  stops : ∀ {top : Activation} {rest : List Activation} {task : Task} {o : ValueId},
    s.chain.entries = top :: rest → top.work = .await task o 0 →
    ∀ {r : Session} {focus : ValueId} {unwrapped : ℕ}, Session.Reaches env s r →
      r.Arrives top.binding task focus unwrapped →
      r.step env = r.serve env (task.resume env r.nodes focus) ∧
      (∀ {b : Arena} {k : ℕ} {u : ValueId}, r.nodes.Grows b →
        b.Narrows (fun _ => True) k o u → focus = u ∧ unwrapped = k) ∧
      (r.nodes.Narrows (fun _ => True) unwrapped o focus ∨
        (∃ p, r.nodes.node? focus = some (.any p)) ∧ r.nodes.Loops (r.nodes.resolve o))
  /-- It goes on before the run is done with it. -/
  arrives : ∀ {top : Activation} {rest : List Activation} {task : Task} {o : ValueId},
    s.chain.entries = top :: rest → top.work = .await task o 0 → task.narrows →
    ∀ {t : Session}, Session.Reaches env s t → ¬ t.WaitsWith top.binding task →
      ∃ r focus unwrapped, Session.Reaches env s r ∧ Session.Reaches env r t ∧
        r.Arrives top.binding task focus unwrapped

theorem Session.Sound.forcesThrough {env : Environment} {start : ℕ} {s : Session}
    (h : Session.Sound env start s) (hk : Session.Stacked env s) : s.ForcesThrough env where
  stops := by
    intro top rest task o hchain hwork r focus unwrapped hr harrives
    have hforcing := (Session.Forcing.initial h hchain hwork).reaches h hr
    exact ⟨harrives.step, hforcing.arrived (h.reaches hr).2 (hk.reaches h hr) harrives⟩
  arrives := by
    intro top rest task o hchain hwork hnar t ht hdone
    have hwaits : s.WaitsWith top.binding task :=
      ⟨top, hchain ▸ List.mem_cons_self, rfl, o, 0, hwork⟩
    exact Session.exists_arrives hwaits hnar ht hdone

/-! ## Three ways of looking -/

/-- The downcasts of a reader, the types of parameters and the operands of instructions look through
erased types alike: to the first value that is none, however many stand around it, or to one of them
if they loop. -/
theorem narrowing_exact :
    (∀ {v : View}, v.nodes.Sealed → v.ReadsThrough) ∧
    (∀ {w w₁ w₂ : Workspace} {target : TableId} {vs : List Value} {ids : List ValueId}
      {intake intake' : Intake} {v : Value} {id : ValueId}, w.Built →
      (∀ u ∈ vs, w.Holds u) → w.Holds v →
      Intake.addAll target vs w {} = (w₁, .ok (ids, intake)) →
      Intake.add target w₁ intake v = (w₂, .ok (id, intake')) → intake'.TypesThrough w v id) ∧
    ∀ {e : Evaluator} {w w' : Workspace} {n : Name} {params : List (Option Value)}
      {p : Preparation} {f : Frame} {s₀ s : Session}, e.prepare w n params = (w', .ok p) →
      p.env.Opens p.nodes n p.args f s₀ → Session.Reaches p.env s₀ s → s.ForcesThrough p.env := by
  refine ⟨View.readsThrough, ?_, ?_⟩
  · intro w w₁ w₂ target vs ids intake intake' v id hw hvs hv hall hadd
    have htraces := (Intake.traces_empty w target).addAll hw.whole hvs hall
    exact htraces.typesThrough hw.whole hv hadd
  · intro e w w' n params p f s₀ s hprepare hopens hr
    have hsound := hopens.sound (Evaluator.prepare_eq_ok hprepare).nodes
    have hstacked : Session.Stacked p.env s₀ := .initial hopens.chain
    exact (hsound.reaches hr).2.forcesThrough (hstacked.reaches hsound hr)

namespace Sample

/-- A class that shows its parameter in two erased types, and an erased type that wraps itself. Its
first instruction looks through the two erased types. -/
def shell : ClassDef where
  interner := ⟨0⟩
  name := ⟨1⟩
  params := [⟨⟨2⟩, .any⟩]
  fields := [⟨⟨3⟩, .any⟩, ⟨⟨4⟩, .any⟩]
  instrs := #[.binary .add (.instr 2) (.instr 2), .any (.param 0), .any (.instr 1),
    .any (.instr 3)]
  yields := [.instr 2, .instr 3]
  valid := ⟨by decide, by decide, by decide, by decide, rfl, by decide⟩

def shellTable : ClassTable where
  interner := ⟨0⟩
  classes := [shell]
  names_nodup := by decide
  interner_eq := by decide

/-- A workspace with the number for the shell. -/
def shells : Workspace :=
  (((["Shell", "core", "nested", "endless"].foldl (fun w s => (w.intern ⟨0⟩ s).2)
    (Workspace.addInterner {}).2).addTable shellTable).2.addLiteral (.int ⟨3, 8, .signed⟩)).2

/-- The number. -/
def core : Value := ⟨⟨0⟩, ⟨0⟩⟩

theorem built_shells : shells.Built :=
  .addLiteral _ (.addTable _ (.intern _ _ (.intern _ _ (.intern _ _ (.intern _ _
    (.addInterner .empty))))))

theorem holds_core : shells.Holds core := ⟨.literal (.int ⟨3, 8, .signed⟩), by decide +kernel, rfl⟩

def shellPreparation : Preparation where
  env := { classes := shellTable, names := shells.tableNames ⟨0⟩, limits := {} }
  nodes := #[.literal (.int ⟨3, 8, .signed⟩)]
  args := [⟨0⟩]

/-- The state after so many steps. -/
def stepped (env : Environment) : ℕ → Session → Option Session
  | 0, s => some s
  | n + 1, s =>
    match s.step env with
    | .running s' => stepped env n s'
    | _ => none

theorem reaches_of_stepped {env : Environment} {n : ℕ} {s s' : Session}
    (h : stepped env n s = some s') : Session.Reaches env s s' := by
  induction n generalizing s with
  | zero =>
    cases h
    exact .refl
  | succ n ih =>
    rw [stepped] at h
    split at h
    · rename_i r hstep
      exact (ih h).head hstep
    · cases h

/-- The number is read through the two erased types, which are looked through again when the shell
that shows them becomes a parameter, and were when the numbers were added. The other erased type is
none of these kinds. -/
theorem shell_narrowing : ∃ w v, evaluator.instantiateName shells ⟨1⟩ [some core] 40 = (w, .ok v) ∧
    (w.view v.graph).ReadsThrough ∧ (w.view v.graph).asInt ⟨6⟩ = .ok ⟨3, 8, .signed⟩ ∧
    (w.view v.graph).asInt ⟨9⟩ = .error (.ofKind (.typeMismatch "integer" "any")) ∧
    (∃ w' id intake, Intake.add ⟨0⟩ w {} ⟨v.graph, ⟨6⟩⟩ = (w', .ok (id, intake)) ∧
      intake.TypesThrough w ⟨v.graph, ⟨6⟩⟩ id ∧ intake.runtimeType id = .int 8) ∧
    ∃ f s₀ s, shellPreparation.env.Opens shellPreparation.nodes ⟨1⟩ shellPreparation.args f s₀ ∧
      stepped shellPreparation.env 2 s₀ = some s ∧
      s.chain.entries.head?.map Activation.work = some (.await (.left .add ⟨3⟩) ⟨3⟩ 0) ∧
      s.ForcesThrough shellPreparation.env := by
  have h : evaluator.instantiateName shells ⟨1⟩ [some core] 40 =
      ((evaluator.instantiateName shells ⟨1⟩ [some core] 40).1, .ok ⟨⟨1⟩, ⟨5⟩⟩) :=
    Prod.ext rfl (by decide +kernel)
  have hparams : ∀ v, some v ∈ [some core] → shells.Holds v := by
    intro v hv
    cases List.mem_singleton.1 hv
    exact holds_core
  have hbuilt := built_shells.instantiateName evaluator ⟨1⟩ [some core] 40 hparams
  generalize hw : (evaluator.instantiateName shells ⟨1⟩ [some core] 40).1 = w at h hbuilt
  obtain ⟨p, f, s₀, s, heval⟩ := Evaluator.exists_evaluates h
  have hsealed : (w.view ⟨1⟩).nodes.Sealed := by
    rw [Workspace.nodes_view]
    exact heval.isSealed
  refine ⟨w, ⟨⟨1⟩, ⟨5⟩⟩, h, narrowing_exact.1 hsealed, ?_, ?_, ?_, ?_⟩
  · rw [← hw]
    decide +kernel
  · rw [← hw]
    decide +kernel
  · have htype : (Intake.add ⟨0⟩ w {} ⟨⟨1⟩, ⟨6⟩⟩).2.toOption.map
        (fun r => r.2.runtimeType r.1) = some (.int 8) := by
      rw [← hw]
      decide +kernel
    have hholds : w.Holds ⟨⟨1⟩, ⟨6⟩⟩ := by
      refine ⟨.any ⟨7⟩, ?_, rfl⟩
      rw [← hw]
      decide +kernel
    rcases hadd : Intake.add ⟨0⟩ w {} ⟨⟨1⟩, ⟨6⟩⟩ with ⟨w', f | ⟨id, intake⟩⟩
    · rw [hadd] at htype
      cases htype
    · rw [hadd] at htype
      have hvs : ∀ u ∈ ([] : List Value), w.Holds u := fun _ hu => nomatch hu
      exact ⟨w', id, intake, rfl, narrowing_exact.2.1 hbuilt hvs hholds rfl hadd,
        Option.some.inj htype⟩
  · have hprepare : evaluator.prepare shells ⟨1⟩ [some core] = (shells, .ok shellPreparation) := rfl
    have hcreation : Session.creation shellPreparation.env { nodes := shellPreparation.nodes } ⟨1⟩
        shellPreparation.args = .ok (.fresh { cls := shell, params := #[⟨0⟩], base := 1 }
          ⟨⟨1⟩, [.literal (.int ⟨3, 8, .signed⟩)]⟩ [⟨3⟩, ⟨4⟩]) := rfl
    obtain ⟨f, -, hopens⟩ := Environment.opens_of_creation hcreation
    generalize hs₀ : (Session.create _ _).2 = s₀ at hopens
    have hwork : (stepped shellPreparation.env 2 s₀).map
        (fun s => s.chain.entries.head?.map Activation.work) =
          some (some (.await (.left .add ⟨3⟩) ⟨3⟩ 0)) := by
      rw [← hs₀]
      decide +kernel
    obtain ⟨s, hs, hwork⟩ := Option.map_eq_some_iff.1 hwork
    exact ⟨f, s₀, s, hopens, hs, hwork,
      narrowing_exact.2.2 hprepare hopens (reaches_of_stepped hs)⟩

end Sample

end ObjectModel
