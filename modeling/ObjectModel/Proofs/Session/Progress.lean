import ObjectModel.Proofs.Session.Trace
import Mathlib.Data.Prod.Lex

/-!
# Runs that end

Under a limit on instances every run ends (`Session.Regular.exists_ends`). Each step makes progress
(`Session.Regular.remaining_lt`): a demand starts one of the slots that the limit admits; otherwise
the most recent activation ends, or it gets on with its task, or, with nothing waiting, the cursor
moves on. The cursor goes through frames that are added while it moves, but there are never more of
them than the limit.
-/

set_option autoImplicit false

namespace ObjectModel

variable {env : Environment} {start : ℕ}

/-- For how many values a task waits after the next one, at most. -/
def Task.remaining : Task → ℕ
  | .forward => 0
  | .project _ path => path.length + 1
  | .concat _ rest => rest.length
  | .left _ _ => 1
  | .right _ _ => 0

/-- A task that goes on waiting has less to wait for. -/
theorem Task.Resumes.remaining_lt {a : Arena} {v focus : ValueId} {task next : Task}
    (h : task.Resumes env a v (.await next focus)) : next.remaining < task.remaining := by
  cases h with
  | last _ => exact Nat.succ_pos _
  | project _ => exact Nat.lt_succ_self _
  | gather _ _ _ => exact Nat.lt_succ_self _
  | left _ _ => exact Nat.one_pos

namespace Session

variable {s s' : Session}

/-- What is left to do before the chain gets shorter or longer: the frames and instructions ahead of
the cursor, or the task of the most recent activation. -/
def todo (max longest : ℕ) (s : Session) : ℕ ×ₗ ℕ ×ₗ ℕ ×ₗ ℕ :=
  match s.chain.entries with
  | [] => toLex (max - s.cursor.frame, toLex (longest - s.cursor.instr, toLex (0, 0)))
  | top :: _ =>
    match top.work with
    | .start => toLex (1, toLex (0, toLex (0, 0)))
    | .await task focus unwrapped =>
      toLex (0, toLex (task.remaining, toLex (s.nodes.size + 1 - unwrapped,
        if (s.nodes.node? focus).elim false Node.isBinding then 1 else 0)))

/-- What is left to do: the slots that are not started, the activations, and what is next. -/
noncomputable def remaining (max longest : ℕ) (s : Session) : ℕ ×ₗ ℕ ×ₗ ℕ ×ₗ ℕ ×ₗ ℕ ×ₗ ℕ :=
  toLex (max * longest - s.started.ncard, toLex (s.chain.entries.length, s.todo max longest))

theorem todo_nil {max longest : ℕ} (h : s.chain.entries = []) :
    s.todo max longest =
      toLex (max - s.cursor.frame, toLex (longest - s.cursor.instr, toLex (0, 0))) := by
  rw [todo, h]

theorem todo_start {max longest : ℕ} {top : Activation} {rest : List Activation}
    (h : s.chain.entries = top :: rest) (hwork : top.work = .start) :
    s.todo max longest = toLex (1, toLex (0, toLex (0, 0))) := by
  rw [todo, h]
  simp only [hwork]

theorem todo_await {max longest : ℕ} {top : Activation} {rest : List Activation} {task : Task}
    {focus : ValueId} {unwrapped : ℕ} (h : s.chain.entries = top :: rest)
    (hwork : top.work = .await task focus unwrapped) :
    s.todo max longest =
      toLex (0, toLex (task.remaining, toLex (s.nodes.size + 1 - unwrapped,
        if (s.nodes.node? focus).elim false Node.isBinding then 1 else 0))) := by
  rw [todo, h]
  simp only [hwork]

/-- With the same slots started and a chain that is as long, what is next decides. -/
theorem remaining_lt_of_todo {max longest : ℕ} (hstarted : s'.started = s.started)
    (hlength : s'.chain.entries.length = s.chain.entries.length)
    (h : s'.todo max longest < s.todo max longest) :
    s'.remaining max longest < s.remaining max longest := by
  rw [remaining, remaining, hstarted, hlength]
  exact Prod.Lex.toLex_lt_toLex.2 (Or.inr ⟨rfl, Prod.Lex.toLex_lt_toLex.2 (Or.inr ⟨rfl, h⟩)⟩)

/-- With the same slots started the length of the chain decides. -/
theorem remaining_lt_of_length {max longest : ℕ} (hstarted : s'.started = s.started)
    (h : s'.chain.entries.length < s.chain.entries.length) :
    s'.remaining max longest < s.remaining max longest := by
  rw [remaining, remaining, hstarted]
  exact Prod.Lex.toLex_lt_toLex.2 (Or.inr ⟨rfl, Prod.Lex.toLex_lt_toLex.2 (Or.inl h)⟩)

/-- While nothing waits, the cursor decides. -/
theorem remaining_lt_of_cursor {max longest : ℕ} {cursor : Slot} (hchain : s.chain.entries = [])
    (h : max - cursor.frame < max - s.cursor.frame ∨ max - cursor.frame = max - s.cursor.frame ∧
      longest - cursor.instr < longest - s.cursor.instr) :
    remaining max longest { s with cursor } < s.remaining max longest := by
  have hstarted : started { s with cursor } = s.started := rfl
  have hnil : ({ s with cursor } : Session).chain.entries = [] := hchain
  apply remaining_lt_of_todo hstarted
  · rfl
  · rw [todo_nil hnil, todo_nil hchain]
    apply Prod.Lex.toLex_lt_toLex.2
    rcases h with h | ⟨heq, h⟩
    · exact Or.inl h
    · exact Or.inr ⟨heq, Prod.Lex.toLex_lt_toLex.2 (Or.inl h)⟩

/-- While the most recent activation goes on waiting, its task decides. -/
theorem remaining_lt_of_await {max longest : ℕ} {top : Activation} {rest : List Activation}
    {task next : Task} {focus target : ValueId} {unwrapped unwrapped' : ℕ}
    (hchain : s.chain.entries = top :: rest) (hwork : top.work = .await task focus unwrapped)
    (h : next.remaining < task.remaining ∨ next.remaining = task.remaining ∧
      toLex (s.nodes.size + 1 - unwrapped',
          if (s.nodes.node? target).elim false Node.isBinding then 1 else 0) <
        toLex (s.nodes.size + 1 - unwrapped,
          if (s.nodes.node? focus).elim false Node.isBinding then 1 else 0)) :
    (s.setWork (.await next target unwrapped')).remaining max longest <
      s.remaining max longest := by
  have hentries := chain_setWork hchain (.await next target unwrapped')
  have hstarted : (s.setWork (.await next target unwrapped')).started = s.started := rfl
  apply remaining_lt_of_todo hstarted
  · rw [hentries, hchain, List.length_cons, List.length_cons]
  · rw [todo_await hentries rfl, todo_await hchain hwork]
    exact Prod.Lex.toLex_lt_toLex.2 (Or.inr ⟨rfl, Prod.Lex.toLex_lt_toLex.2 h⟩)

namespace Regular

variable {max : ℕ}

/-- A demand starts one of the slots that are left. -/
theorem remaining_lt_of_demand (h : Regular env start s) (hs' : Regular env start s')
    (hmax : env.limits.instances = some max) {id : ValueId} {slot cursor : Slot}
    (hn : s.nodes.node? id = some (.binding slot .unstarted))
    (hd : demand env { s with cursor } id slot = .running s') :
    s'.remaining max env.classes.longestBody < s.remaining max env.classes.longestBody := by
  obtain ⟨-, hnew, hinsert⟩ := h.sound.started_demand hn hd
  have hcard : s'.started.ncard = s.started.ncard + 1 := by
    rw [hinsert, Set.ncard_insert_of_notMem hnew s.started_finite]
  have hle := hs'.started_ncard_le hmax
  rw [remaining, remaining]
  apply Prod.Lex.toLex_lt_toLex.2
  left
  show _ - _ < _ - _
  omega

/-- A request that is served ends the most recent activation, or it waits with a task that has less
to wait for. -/
theorem remaining_lt_of_serve (h : Regular env start s) {top : Activation} {rest : List Activation}
    {req : Request} (hchain : s.chain.entries = top :: rest) (hreq : s.Asks env top req)
    (hserve : (s.counted top).serve env req = .running s') {longest : ℕ} :
    s'.remaining max longest < s.remaining max longest := by
  have hstarted := (h.sound.started_asks h.counted.waits hchain hreq hserve).2
  have hcchain : (s.counted top).chain.entries = top :: rest := by rw [chain_counted, hchain]
  rcases serve_running hserve with ⟨task, focus, rfl, rfl⟩ | ⟨n, rfl, rfl⟩ | ⟨id, rfl, rfl⟩ |
    ⟨target, args, c, rfl, hc, rfl⟩
  -- Where the answer is to wait, the activation stays: it starts its task, or its task goes on with
  -- fewer values to wait for. Every other answer ends the activation.
  · have hentries := chain_setWork hcchain (.await task focus 0)
    apply remaining_lt_of_todo hstarted
    · rw [hentries, hchain, List.length_cons, List.length_cons]
    · rw [todo_await hentries rfl]
      generalize hask : Request.await task focus = req at hreq
      cases hreq with
      | start hwork _ _ =>
        rw [todo_start hchain hwork]
        exact Prod.Lex.toLex_lt_toLex.2 (Or.inl Nat.one_pos)
      | @resume before value _ _ hwork _ _ _ =>
        rw [todo_await hchain hwork]
        have hresumes := before.resumes_resume env s.nodes value
        rw [← hask] at hresumes
        apply Prod.Lex.toLex_lt_toLex.2
        exact Or.inr ⟨rfl, Prod.Lex.toLex_lt_toLex.2 (Or.inl hresumes.remaining_lt)⟩
  · have hmchain : ((s.counted top).alloc n).2.chain.entries = top :: rest := hcchain
    apply remaining_lt_of_length hstarted
    rw [chain_settle hmchain, hchain]
    exact Nat.lt_succ_self _
  · apply remaining_lt_of_length hstarted
    rw [chain_settle hcchain, hchain]
    exact Nat.lt_succ_self _
  · have hmchain : ((s.counted top).create c).2.chain.entries = top :: rest := by
      cases c <;> exact hcchain
    apply remaining_lt_of_length hstarted
    rw [chain_settle hmchain, hchain]
    exact Nat.lt_succ_self _

/-- A step makes progress. -/
theorem remaining_lt (h : Regular env start s) (hmax : env.limits.instances = some max)
    (ht : Transition env s s') :
    s'.remaining max env.classes.longestBody < s.remaining max env.classes.longestBody := by
  have hs' := h.transition ht
  cases ht with
  | @pass f hchain hf _ =>
    have hlt := (Array.getElem?_eq_some_iff.1 hf).1
    have hle := h.counted.limit max hmax
    apply remaining_lt_of_cursor hchain
    left
    show max - (s.cursor.frame + 1) < max - s.cursor.frame
    omega
  | @skip f id n hchain hf hid _ _ =>
    have hlt := (Frame.binding?_eq_some_iff.1 hid).1
    have hle := ClassTable.size_le_longestBody (h.sound.layout.known hf)
    apply remaining_lt_of_cursor hchain
    refine Or.inr ⟨rfl, ?_⟩
    show env.classes.longestBody - (s.cursor.instr + 1) < env.classes.longestBody - s.cursor.instr
    omega
  | next _ _ _ hn hd => exact h.remaining_lt_of_demand hs' hmax hn hd
  | demand _ _ hn hd => exact h.remaining_lt_of_demand hs' hmax hn hd
  | @follow top rest task focus target unwrapped slot hchain hwork hn =>
    -- A binding names a value, so there is nothing to follow after it.
    obtain ⟨n, hvalue, hb⟩ := h.sound.layout.resolved hn
    apply remaining_lt_of_await hchain hwork
    refine Or.inr ⟨rfl, Prod.Lex.toLex_lt_toLex.2 (Or.inr ⟨rfl, ?_⟩)⟩
    have hbinding : (Node.binding slot (.resolved target)).isBinding = true := rfl
    rw [hvalue, hn, Option.elim_some, Option.elim_some, hb, hbinding]
    exact Nat.one_pos
  | @unwrap top rest task focus payload unwrapped hchain hwork hn _ hle =>
    apply remaining_lt_of_await hchain hwork
    refine Or.inr ⟨rfl, Prod.Lex.toLex_lt_toLex.2 (Or.inl ?_)⟩
    show s.nodes.size + 1 - (unwrapped + 1) < s.nodes.size + 1 - unwrapped
    omega
  | serve hchain hreq hserve => exact h.remaining_lt_of_serve hchain hreq hserve

/-- Under a limit on instances every run ends. -/
theorem exists_ends (h : Regular env start s) (hmax : env.limits.instances = some max) :
    ∃ r, s.Ends env r := by
  generalize hm : s.remaining max env.classes.longestBody = m
  induction m using WellFoundedLT.induction generalizing s with
  | ind m ih =>
    cases hstep : s.step env with
    | running next =>
      have ht := step_transition hstep
      have hlt := h.remaining_lt hmax ht
      rw [hm] at hlt
      obtain ⟨r, hr⟩ := ih _ hlt (h.transition ht) rfl
      exact ⟨r, Reaches.ends (.single hstep) hr⟩
    | finished final => exact ⟨_, ends_of_finished hstep⟩
    | stopped f last => exact ⟨.error f, 1, by rw [runFor, hstep]⟩

end Regular

end Session

end ObjectModel
