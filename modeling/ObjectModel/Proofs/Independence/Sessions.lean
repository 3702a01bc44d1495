import ObjectModel.Proofs.Independence.Requests

/-!
# Evaluations with other names

A session in which the names of element types are carried over makes the same steps as the session
itself (`Session.Legible.step_retype`), so it leads to the same result or the same failure
(`Environment.Parallel.evaluate_retype`). That the names which an evaluation reads are shared by
both interners is kept by each transition (`Session.Legible.transition`).
-/

set_option autoImplicit false

namespace ObjectModel

/-! ## Arenas of a session -/

namespace Arena

variable {t u : Interner} {a b : Arena}

theorem Carried.set (h : a.Carried t u) (i : ℕ) (slot : Slot) (state : BindingState) :
    Arena.Carried t u (a.setIfInBounds i (.binding slot state)) := by
  intro id n hn
  rw [node?, Array.getElem?_setIfInBounds] at hn
  split at hn
  · split at hn
    · cases hn
      trivial
    · cases hn
  · exact h id n hn

theorem Carried.addBlock (h : a.Carried t u) (f : Frame) (k : ℕ) (fields : List ValueId)
    (hcls : t.Shares u f.cls.name) : (a.addBlock f k fields).Carried t u := by
  refine Carried.push (n := .object f.cls.name fields) ?_ hcls
  intro id n hn
  rw [node?, Array.getElem?_append] at hn
  split at hn
  · exact h id n hn
  · have hblock : Arena.node? (f.block k) ⟨id.index - a.size⟩ = some n := hn
    obtain ⟨-, rfl⟩ := Frame.node?_block.1 hblock
    trivial

theorem retype_addBlock (f : Name → Name) (a : Arena) (g : Frame) (k : ℕ) (fields : List ValueId) :
    (a.addBlock g k fields).retype f = (a.retype f).addBlock g k fields := by
  rw [addBlock, addBlock, retype_push]
  congr 1
  rw [retype, Array.map_append]
  congr 1
  rw [Frame.block, Array.map_map]
  rfl

theorem Carried.finish (h : a.Carried t u) : a.finish.Carried t u := by
  intro id n hn
  obtain ⟨m, hm, rfl⟩ := exists_of_node?_finish hn
  exact (h id m hm).mapChildren _

theorem settled_retype (f : Name → Name) (a : Arena) (id : ValueId) :
    (a.retype f).settled id = a.settled id := by
  rw [settled, settled, resolve_retype, node?_retype]
  cases a.node? (a.resolve id) with
  | none => rfl
  | some n => exact congrArg not (n.isBinding_retype f)

theorem closed_retype (f : Name → Name) (a : Arena) : (a.retype f).closed = a.closed := by
  rw [closed, closed, retype, Array.all_map, Array.size_map]
  congr 1
  funext n
  rw [Function.comp_apply, Node.children_retype]

/-- A sealed arena with carried names is the sealed arena with the names carried afterwards. -/
theorem sealed_retype (f : Name → Name) (a : Arena) :
    (a.retype f).sealed = a.sealed.map (retype f) := by
  have hmap : (a.retype f).map (fun n => n.mapChildren (a.retype f).resolve) =
      retype f (a.map fun n => n.mapChildren a.resolve) := by
    rw [retype, retype, Array.map_map, Array.map_map]
    congr 1
    funext n
    rw [Function.comp_apply, Function.comp_apply, Node.mapChildren_retype]
    congr 2
    funext id
    exact resolve_retype f a id
  rw [sealed, sealed, size_retype, closed_retype, hmap]
  simp only [settled_retype]
  split
  · split <;> rfl
  · rfl

theorem eq_finish_of_sealed (h : a.sealed = .ok b) : b = a.finish := by
  rw [sealed] at h
  split at h
  · split at h
    · exact (Except.ok.inj h).symm
    · cases h
  · cases h

end Arena

/-- A demand of a class with a shared name is described alike. -/
theorem Demand.describe_of_shares {t u : Interner} {d : Demand} (h : t.Shares u d.cls) :
    d.describe u = d.describe t :=
  congrArg (fun s => "demanded by instruction " ++ toString d.instr ++ " of class \"" ++ s ++ "\"")
    h.text

/-- The names that the work of an activation looks for. -/
def Work.names : Work → List Name
  | .start => []
  | .await task _ _ => task.names

namespace Session

/-- The session with carried names. -/
def retype (f : Name → Name) (s : Session) : Session := { s with nodes := s.nodes.retype f }

end Session

/-- The progress with carried names. -/
def Progress.retype (f : Name → Name) : Progress → Progress
  | .running s => .running (s.retype f)
  | .finished s => .finished (s.retype f)
  | .stopped e s => .stopped e (s.retype f)

namespace Session

variable {env env' : Environment} {s s' : Session}

/-! ## Operations of a session -/

section Operations

variable (f : Name → Name) (s : Session)

@[simp] theorem nodes_retype : (s.retype f).nodes = s.nodes.retype f := rfl
@[simp] theorem frames_retype : (s.retype f).frames = s.frames := rfl
@[simp] theorem chain_retype : (s.retype f).chain = s.chain := rfl
@[simp] theorem cursor_retype : (s.retype f).cursor = s.cursor := rfl

theorem memoArg?_retype (id : ValueId) : (s.retype f).memoArg? id = s.memoArg? id := by
  rw [memoArg?, memoArg?]
  show ((s.nodes.retype f).node? id).map _ = _
  rw [Arena.node?_retype, Option.map_map]
  congr 1
  funext n
  cases n <;> rfl

theorem memoKey?_retype (cls : Name) (args : List ValueId) :
    (s.retype f).memoKey? cls args = s.memoKey? cls args := by
  rw [memoKey?, memoKey?]
  congr 2
  funext id
  exact s.memoArg?_retype f id

theorem create_retype (c : Creation) :
    (s.retype f).create c = ((s.create c).1, (s.create c).2.retype f) := by
  cases c with
  | known object => rfl
  | fresh g key fields =>
    have hnodes := Arena.retype_addBlock f s.nodes g s.frames.size fields
    rw [create, create, addFrame, addFrame, retype, retype]
    exact congrArg (fun nodes => (g.object, ({ s with
      nodes := nodes
      frames := s.frames.push g
      memo := s.memo.insert key g.object
      stats := s.stats.countObject } : Session))) hnodes.symm

theorem settle_retype (id : ValueId) : (s.retype f).settle id = (s.settle id).retype f := by
  rw [settle, settle, chain_retype]
  cases s.chain.entries with
  | nil => rfl
  | cons top rest =>
    rw [retype, retype, Arena.retype_setIfInBounds]

theorem alloc_retype (n : Node) :
    (s.retype f).alloc (n.retype f) = ((s.alloc n).1, (s.alloc n).2.retype f) := by
  rw [alloc, alloc, retype, retype, Arena.retype_push, Arena.size_retype]

theorem foldl_failed_retype (l : List Activation) (a : Arena) :
    l.foldl (fun nodes x => nodes.setIfInBounds x.binding.index (.binding x.slot .failed))
        (a.retype f) =
      (l.foldl (fun nodes x => nodes.setIfInBounds x.binding.index (.binding x.slot .failed))
        a).retype f := by
  induction l generalizing a with
  | nil => rfl
  | cons x l ih => rw [List.foldl_cons, List.foldl_cons, ← Arena.retype_setIfInBounds, ih]

theorem abort_retype (e : Failure) : (s.retype f).abort e = (s.abort e).retype f := by
  rw [abort, abort, Progress.retype, retype, retype]
  exact congrArg (fun nodes => Progress.stopped e ({ s with nodes, chain := .empty } : Session))
    (foldl_failed_retype f s.chain.entries s.nodes)

end Operations

/-- What is instantiated comes to the same, and is refused alike. -/
theorem creation_retype (h : env.Parallel env') {target : Name}
    (htarget : env.names.Shares env'.names target) (f : Name → Name) (s : Session)
    (args : List ValueId) :
    (s.retype f).creation env' target args = s.creation env target args := by
  rw [creation, creation, h.classes, htarget.text, h.shares, h.limits, memoKey?_retype]
  simp only [retype, Arena.size_retype]
  rfl

/-! ## The names of a session -/

/-- The names that a session reads are shared by both interners, and those in its element types are
carried over. -/
structure Legible (env env' : Environment) (s : Session) : Prop where
  nodes : s.nodes.Carried env.names env'.names
  frames : ∀ f ∈ s.frames, f.cls ∈ env.classes.classes
  demands : ∀ a ∈ s.chain.entries, env.names.Shares env'.names a.demand.cls
  works : ∀ a ∈ s.chain.entries, ∀ n ∈ a.work.names, env.names.Shares env'.names n

namespace Legible

/-- What the most recent activation asks for mentions such names only. -/
theorem carried_asks (h : Legible env env' s) (henv : env.Parallel env') {top : Activation}
    (htop : top ∈ s.chain.entries) {req : Request} (hreq : s.Asks env top req) :
    req.Carried env.names env'.names := by
  cases hreq with
  | start _ hf hi =>
    exact Frame.carried_start _ fun n hn => henv.names _ (h.frames _ (Array.mem_of_getElem? hf)) n
      (ClassDef.mem_names_of_instr (Array.mem_of_getElem? hi) hn)
  | resume hwork _ _ _ =>
    refine Task.carried_resume h.nodes fun n hn => h.works top htop n ?_
    rw [hwork]
    exact hn

theorem move (h : Legible env env' s) (cursor : Slot) : Legible env env' { s with cursor } :=
  ⟨h.nodes, h.frames, h.demands, h.works⟩

theorem counted (h : Legible env env' s) (top : Activation) :
    Legible env env' (s.counted top) := by
  rw [Session.counted]
  split <;> exact ⟨h.nodes, h.frames, h.demands, h.works⟩

theorem setWork (h : Legible env env' s) {top : Activation} {rest : List Activation}
    (hchain : s.chain.entries = top :: rest) {work : Work}
    (hwork : ∀ n ∈ work.names, env.names.Shares env'.names n) :
    Legible env env' (s.setWork work) := by
  have hdemands := h.demands
  have hworks := h.works
  rw [hchain] at hdemands hworks
  refine ⟨h.nodes, h.frames, ?_, ?_⟩ <;> rw [chain_setWork hchain] <;> intro a ha
  · rcases List.mem_cons.1 ha with rfl | ha
    · exact hdemands top List.mem_cons_self
    · exact hdemands a (List.mem_cons_of_mem _ ha)
  · rcases List.mem_cons.1 ha with rfl | ha
    · exact hwork
    · exact hworks a (List.mem_cons_of_mem _ ha)

theorem settle (h : Legible env env' s) (id : ValueId) : Legible env env' (s.settle id) := by
  have hmem : ∀ {a}, a ∈ s.chain.entries.tail → a ∈ s.chain.entries := List.mem_of_mem_tail
  rw [Session.settle]
  split
  · exact h
  · exact ⟨h.nodes.set _ _ _, h.frames, fun a ha => h.demands a (hmem ha),
      fun a ha => h.works a (hmem ha)⟩

theorem alloc (h : Legible env env' s) {n : Node} (hn : n.Carried env.names env'.names) :
    Legible env env' (s.alloc n).2 :=
  ⟨h.nodes.push hn, h.frames, h.demands, h.works⟩

theorem create (h : Legible env env' s) (henv : env.Parallel env') {target : Name}
    {args : List ValueId} {c : Creation} (hc : s.creation env target args = .ok c) :
    Legible env env' (s.create c).2 := by
  cases c with
  | known object => exact ⟨h.nodes, h.frames, h.demands, h.works⟩
  | fresh f key fields =>
    have hf := (ClassTable.of_lookup?_eq_some (creation_eq_fresh hc).lookup).1
    have hname := henv.names f.cls hf f.cls.name List.mem_cons_self
    refine ⟨h.nodes.addBlock f s.frames.size fields hname, ?_, h.demands, h.works⟩
    intro g hg
    rcases Array.mem_push.1 hg with hg | rfl
    · exact h.frames g hg
    · exact hf

theorem demand (h : Legible env env' s) (henv : env.Parallel env') {id : ValueId} {slot : Slot}
    (hd : s.demand env id slot = .running s') : Legible env env' s' := by
  obtain ⟨f, chain, hf, hentries, rfl⟩ := demand_running hd
  have hname := henv.names f.cls (h.frames f (Array.mem_of_getElem? hf)) f.cls.name
    List.mem_cons_self
  refine ⟨h.nodes.set _ _ _, h.frames, ?_, ?_⟩ <;> dsimp only <;> rw [hentries] <;> intro a ha
  · rcases List.mem_cons.1 ha with rfl | ha
    · exact hname
    · exact h.demands a ha
  · rcases List.mem_cons.1 ha with rfl | ha
    · exact fun _ hn => nomatch hn
    · exact h.works a ha

theorem serve (h : Legible env env' s) (henv : env.Parallel env') {top : Activation}
    {rest : List Activation} (hchain : s.chain.entries = top :: rest) {req : Request}
    (hreq : req.Carried env.names env'.names) (hs : s.serve env req = .running s') :
    Legible env env' s' := by
  rcases serve_running hs with ⟨task, focus, rfl, rfl⟩ | ⟨n, rfl, rfl⟩ | ⟨id, rfl, rfl⟩ |
    ⟨target, args, c, rfl, hc, rfl⟩
  · exact h.setWork hchain hreq
  · exact (h.alloc hreq).settle _
  · exact h.settle id
  · exact (h.create henv hc).settle _

/-- Each transition keeps the names of a session. -/
theorem transition (h : Legible env env' s) (henv : env.Parallel env')
    (ht : Transition env s s') : Legible env env' s' := by
  have hwork : ∀ {top : Activation} {rest : List Activation} {task : Task} {focus : ValueId}
      {unwrapped : Nat}, s.chain.entries = top :: rest →
      top.work = .await task focus unwrapped → ∀ n ∈ task.names, env.names.Shares env'.names n := by
    intro top rest task focus unwrapped hchain hwork n hn
    refine h.works top (hchain ▸ List.mem_cons_self) n ?_
    rw [hwork]
    exact hn
  cases ht with
  | pass _ _ _ => exact h.move _
  | skip _ _ _ _ _ => exact h.move _
  | next _ _ _ _ hd => exact (h.move _).demand henv hd
  | demand _ _ _ hd => exact h.demand henv hd
  | follow hchain htop _ => exact h.setWork hchain (hwork hchain htop)
  | unwrap hchain htop _ _ _ => exact h.setWork hchain (hwork hchain htop)
  | serve hchain hreq hs =>
    exact (h.counted _).serve henv ((chain_counted s _).symm ▸ hchain)
      (h.carried_asks henv (hchain ▸ List.mem_cons_self) hreq) hs

/-! ## Steps -/

theorem cycleFailure_retype (h : Legible env env' s) (henv : env.Parallel env') (f : Name → Name)
    (slot : Slot) : (s.retype f).cycleFailure env' slot = s.cycleFailure env slot := by
  rw [cycleFailure, cycleFailure, frames_retype, chain_retype]
  cases hf : s.frames[slot.frame]? with
  | none => rfl
  | some g =>
    have hname := henv.names g.cls (h.frames g (Array.mem_of_getElem? hf)) g.cls.name
      List.mem_cons_self
    have hnotes : ∀ e : EvalError, (s.chain.entries.take cycleNotes).foldl
        (fun e a => e.withNote (a.demand.describe env'.names)) e =
          (s.chain.entries.take cycleNotes).foldl
            (fun e a => e.withNote (a.demand.describe env.names)) e := by
      intro e
      apply List.foldl_ext
      intro e a ha
      exact congrArg e.withNote (Demand.describe_of_shares (h.demands a (List.mem_of_mem_take ha)))
    simp only [hname.text, hnotes]

theorem demand_retype (henv : env.Parallel env') (f : Name → Name) (s : Session) (id : ValueId)
    (slot : Slot) : (s.retype f).demand env' id slot = (s.demand env id slot).retype f := by
  rw [Session.demand, Session.demand, frames_retype, chain_retype, henv.limits]
  cases s.frames[slot.frame]? with
  | none => exact s.abort_retype f .dangling
  | some g =>
    dsimp only
    cases s.chain.push env.limits.depth _ with
    | ok chain =>
      have hnodes := Arena.retype_setIfInBounds f s.nodes id.index slot .inProgress
      exact congrArg (fun nodes => Progress.running { s with nodes, chain }) hnodes.symm
    | error e =>
      have hnodes := Arena.retype_setIfInBounds f s.nodes id.index slot .failed
      rw [← abort_retype]
      exact congrArg (fun nodes => abort { s with nodes } (.error e)) hnodes.symm

theorem enter_retype (h : Legible env env' s) (henv : env.Parallel env') (f : Name → Name)
    (id : ValueId) (slot : Slot) (state : BindingState) :
    (s.retype f).enter env' id slot state = (s.enter env id slot state).retype f := by
  cases state with
  | unstarted => exact demand_retype henv f s id slot
  | inProgress =>
    rw [enter, enter, h.cycleFailure_retype henv]
    exact s.abort_retype f _
  | resolved target => rfl
  | failed => exact s.abort_retype f _

/-- A request of shared names is served alike. -/
theorem serve_retype (henv : env.Parallel env') (f : Name → Name) (s : Session) {req : Request}
    (hreq : req.Carried env.names env'.names) :
    (s.retype f).serve env' (req.retype f) = (s.serve env req).retype f := by
  cases req with
  | await task focus => rfl
  | produce n =>
    rw [Request.retype, Session.serve, Session.serve, alloc_retype]
    exact congrArg Progress.running (settle_retype f _ _)
  | forward id => exact congrArg Progress.running (settle_retype f s id)
  | create target args =>
    show (s.retype f).serve env' (.create target args) = _
    rw [Session.serve, Session.serve, creation_retype henv hreq]
    cases s.creation env target args with
    | ok c =>
      dsimp only
      rw [create_retype]
      exact congrArg Progress.running (settle_retype f _ _)
    | error e => exact s.abort_retype f e
  | fail e => exact s.abort_retype f e

theorem start_retype (h : Legible env env' s) (henv : env.Parallel env') (slot : Slot) :
    (s.retype (env.names.carry env'.names)).start env' slot =
      (s.start env slot).retype (env.names.carry env'.names) := by
  rw [start, start, frames_retype]
  cases hf : s.frames[slot.frame]? with
  | none => exact s.abort_retype _ .dangling
  | some g =>
    dsimp only
    cases hi : g.cls.instrs[slot.instr]? with
    | none => exact s.abort_retype _ .dangling
    | some i =>
      have hnames : ∀ n ∈ i.names, env.names.Shares env'.names n := fun n hn =>
        henv.names _ (h.frames g (Array.mem_of_getElem? hf)) n
          (ClassDef.mem_names_of_instr (Array.mem_of_getElem? hi) hn)
      dsimp only
      rw [Frame.start_retype g hnames]
      exact serve_retype henv _ { s with stats := s.stats.countInstruction }
        (Frame.carried_start g hnames)

theorem look_retype (h : Legible env env' s) (henv : env.Parallel env') {task : Task}
    (htask : ∀ n ∈ task.names, env.names.Shares env'.names n) (focus : ValueId) (unwrapped : Nat) :
    (s.retype (env.names.carry env'.names)).look env' task focus unwrapped =
      (s.look env task focus unwrapped).retype (env.names.carry env'.names) := by
  -- At a value the task goes on with a request of shared names.
  have hserve : (s.retype (env.names.carry env'.names)).serve env'
      (task.resume env' (s.nodes.retype (env.names.carry env'.names)) focus) =
        (s.serve env (task.resume env s.nodes focus)).retype (env.names.carry env'.names) := by
    rw [Task.resume_retype henv.classes h.nodes htask]
    exact serve_retype henv _ s (Task.carried_resume h.nodes htask)
  rw [look, look, nodes_retype, Arena.node?_retype, Arena.size_retype]
  cases s.nodes.node? focus with
  | none => exact s.abort_retype _ .dangling
  | some n =>
    cases n with
    | binding slot state =>
      cases state with
      | resolved target => rfl
      | _ => exact h.enter_retype henv _ focus slot _
    | any payload =>
      dsimp only [Option.map_some, Node.retype]
      split
      · rfl
      · exact hserve
    | _ => exact hserve

theorem advance_retype (h : Legible env env' s) (henv : env.Parallel env') (f : Name → Name) :
    (s.retype f).advance env' = (s.advance env).retype f := by
  rw [advance, advance, frames_retype, cursor_retype]
  cases s.frames[s.cursor.frame]? with
  | none => rfl
  | some g =>
    dsimp only
    cases g.binding? s.cursor.instr with
    | none => rfl
    | some id =>
      have hnext := h.move ⟨s.cursor.frame, s.cursor.instr + 1⟩
      dsimp only
      rw [nodes_retype, Arena.node?_retype]
      cases s.nodes.node? id with
      | none => exact s.abort_retype f .dangling
      | some n =>
        cases n with
        | binding slot state => exact hnext.enter_retype henv f id slot state
        | _ => rfl

/-- A step of the session with carried names is the step of the session, with carried names. -/
theorem step_retype (h : Legible env env' s) (henv : env.Parallel env') :
    (s.retype (env.names.carry env'.names)).step env' =
      (s.step env).retype (env.names.carry env'.names) := by
  rw [step, step, chain_retype]
  cases hchain : s.chain.entries with
  | nil => exact h.advance_retype henv _
  | cons top rest =>
    dsimp only
    cases hwork : top.work with
    | start => exact h.start_retype henv top.slot
    | await task focus unwrapped =>
      refine h.look_retype henv (fun n hn => ?_) focus unwrapped
      refine h.works top (hchain ▸ List.mem_cons_self) n ?_
      rw [hwork]
      exact hn

/-- A run with carried names is the run, with carried names. -/
theorem runFor_retype (henv : env.Parallel env') (steps : ℕ) (h : Legible env env' s) :
    (s.retype (env.names.carry env'.names)).runFor env' steps =
      (s.runFor env steps).map (Except.map (retype (env.names.carry env'.names))) := by
  -- Induction on the steps left; each transition keeps the names of the session.
  induction steps generalizing s with
  | zero => rfl
  | succ n ih =>
    rw [runFor, runFor, h.step_retype henv]
    cases hstep : s.step env with
    | running next => exact ih (h.transition henv (step_transition hstep))
    | finished final => rfl
    | stopped e last => rfl

theorem reaches (h : Legible env env' s) (henv : env.Parallel env') (hr : Reaches env s s') :
    Legible env env' s' :=
  hr.induct (fun _ _ hs ht => hs.transition henv ht) h

end Legible

end Session

/-! ## Evaluations -/

/-- The graph with carried names. -/
def Graph.retype (f : Name → Name) (g : Graph) : Graph := { g with nodes := g.nodes.retype f }

namespace Environment.Parallel

variable {env env' : Environment} {nodes : Arena} {target : Name} {args : List ValueId}

/-- A session that starts with carried nodes reads shared names only, once its first class has
one. -/
theorem legible (henv : env.Parallel env') (hnodes : nodes.Carried env.names env'.names)
    {c : Session.Creation} (hc : Session.creation env { nodes } target args = .ok c) :
    Session.Legible env env' (Session.create { nodes } c).2 := by
  refine Session.Legible.create ?_ henv hc
  exact
    { nodes := hnodes
      frames := fun f hf => absurd hf (Array.not_mem_empty f)
      demands := fun a ha => absurd ha List.not_mem_nil
      works := fun a ha => absurd ha List.not_mem_nil }

theorem complete_retype (henv : env.Parallel env') (hnodes : nodes.Carried env.names env'.names)
    (htarget : env.names.Shares env'.names target) (steps : ℕ) :
    env'.complete (nodes.retype (env.names.carry env'.names)) target args steps =
      (env.complete nodes target args steps).map fun r =>
        (r.1, r.2.retype (env.names.carry env'.names)) := by
  have hcreation := Session.creation_retype henv htarget (env.names.carry env'.names) { nodes } args
  cases hc : Session.creation env { nodes } target args with
  | error e =>
    rw [hc] at hcreation
    rw [complete, complete, Session.createObject, Session.createObject, hc]
    change Session.creation env' { nodes := nodes.retype _ } target args = _ at hcreation
    rw [hcreation]
    rfl
  | ok c =>
    rw [hc] at hcreation
    have hcreate := Session.create_retype (env.names.carry env'.names) { nodes } c
    change Session.create { nodes := nodes.retype _ } c = _ at hcreate
    rw [complete_of_creation hc, complete_of_creation hcreation, hcreate,
      (henv.legible hnodes hc).runFor_retype henv]
    cases (Session.create { nodes } c).2.runFor env steps with
    | none => rfl
    | some r => cases r <;> rfl

/-- An evaluation with carried names comes to the same as without: it fails alike, or its graph is
the same with carried names. -/
theorem evaluate_retype (henv : env.Parallel env') (hnodes : nodes.Carried env.names env'.names)
    (htarget : env.names.Shares env'.names target) (table : TableId) (steps : ℕ) :
    env'.evaluate table (nodes.retype (env.names.carry env'.names)) target args steps =
      (env.evaluate table nodes target args steps).map fun r =>
        (r.1.retype (env.names.carry env'.names), r.2) := by
  rw [evaluate, evaluate, henv.complete_retype hnodes htarget]
  cases env.complete nodes target args steps with
  | error e => rfl
  | ok r =>
    obtain ⟨root, s⟩ := r
    simp only [Except.map, bind, Except.bind, Session.nodes_retype, Arena.sealed_retype]
    cases s.nodes.sealed <;> rfl

/-- A graph has the table of its evaluation, and its names are carried over. -/
theorem carried_of_evaluate (henv : env.Parallel env')
    (hnodes : nodes.Carried env.names env'.names) {table : TableId} {steps : ℕ} {g : Graph}
    {root : ValueId} (h : env.evaluate table nodes target args steps = .ok (g, root)) :
    g.table = some table ∧ g.nodes.Carried env.names env'.names := by
  rw [evaluate] at h
  cases hcomplete : env.complete nodes target args steps with
  | error e =>
    rw [hcomplete] at h
    cases h
  | ok r =>
    obtain ⟨root', s⟩ := r
    rw [hcomplete] at h
    cases hsealed : s.nodes.sealed with
    | error e => simp only [bind, Except.bind, hsealed, reduceCtorEq] at h
    | ok b =>
      simp only [bind, Except.bind, hsealed] at h
      cases h
      rw [Arena.eq_finish_of_sealed hsealed]
      -- The names of the first session are kept until the last one.
      obtain ⟨f, s₀, hopens, -, hrun⟩ := complete_eq_ok_iff.1 hcomplete
      have hlegible : Session.Legible env env' s₀ := by
        cases hopens with
        | intro hf => exact henv.legible hnodes hf.creation
      exact ⟨rfl, (hlegible.reaches henv (Session.Ends.reaches ⟨steps, hrun⟩)).nodes.finish⟩

end Environment.Parallel

end ObjectModel
