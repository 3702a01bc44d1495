import ObjectModel.Proofs.Session.Accounting
import ObjectModel.Proofs.Instantiation

/-!
# What an evaluation counts

A request that succeeds evaluates every instruction of every frame once, and both its counters and
the size of its graph are sums over the bodies of its frames (`Evaluator.instantiateName_counts`).
-/

set_option autoImplicit false

namespace ObjectModel

namespace Evaluator

variable {e : Evaluator} {w w' : Workspace} {n : Name} {params : List (Option Value)} {v : Value}
  {steps : ℕ}

/-- A request that succeeds evaluates every instruction of each of its frames once. It counts as
many instructions as all bodies have and as many objects as there are frames; every object or memo
hit belongs to an instantiation in a body, except for the one that the request asks for. Its graph
has the copies of the parameters, for each frame its bindings and its object, and a node for each
instruction that allocates one. -/
theorem instantiateName_counts (h : e.instantiateName w n params steps = (w', .ok v)) :
    ∃ p f₀ s₀ s, Evaluates e w n params w' v p f₀ s₀ s ∧
      (∀ {k : ℕ}, s₀.runFor p.env k = some (.ok s) →
        (s₀.trace p.env k).Nodup ∧
          ∀ slot, slot ∈ s₀.trace p.env k ↔ ∃ f i, s.Located slot f i) ∧
      (w'.graph v.graph).stats.instructions = UInt64.ofNat (s.total fun c => c.instrs.size) ∧
      (w'.graph v.graph).stats.objects = UInt64.ofNat s.frames.size ∧
      (w'.graph v.graph).stats.objects + (w'.graph v.graph).stats.memoHits =
        UInt64.ofNat (1 + s.total fun c => c.instrs.toList.countP Instr.creates) ∧
      (w'.graph v.graph).nodes.size = p.nodes.size +
        s.total fun c => c.instrs.size + 1 + c.instrs.toList.countP Instr.allocates := by
  obtain ⟨p, f₀, s₀, s, heval⟩ := exists_evaluates h
  obtain ⟨hreach, hdone⟩ := heval.completed
  have hregular := heval.opens.regular heval.selfContained
  have hcounted := (hregular.reaches hreach).counted
  rw [Session.arriving_nil hdone.chain_eq] at hcounted
  refine ⟨p, f₀, s₀, s, heval, ?_, ?_, ?_, ?_, ?_⟩
  · intro k hrun
    refine ⟨(hregular.trace_nodup k).1, fun slot => ?_⟩
    exact hdone.mem_trace_iff hregular (heval.opens.started_eq heval.selfContained) hrun
  · obtain ⟨m, hm, hsum⟩ := hcounted.instructions
    rw [Nat.add_zero, hdone.ncard_started] at hsum
    rw [heval.graph, ← hsum]
    exact hm
  · rw [heval.graph]
    exact hcounted.objects
  · obtain ⟨m, hm, hsum⟩ := hcounted.memoHits
    have hinst : s.instantiated.ncard = s.total fun c => c.instrs.toList.countP Instr.creates :=
      hdone.ncard_evaluated Instr.creates
    rw [hinst, Nat.add_zero, Nat.add_comm _ 1] at hsum
    rw [heval.graph, ← hsum, UInt64.ofNat_add, ← hm, ← hcounted.objects]
  · have hsize := (heval.opens.accounted heval.selfContained).reaches hregular hreach
    rw [Session.Accounted, hdone.ncard_evaluated] at hsize
    rw [heval.graph, Arena.size_finish, hsize, Nat.add_zero, Nat.add_assoc, ← Session.total_add]

end Evaluator

namespace Sample

/-- The class with two boxes has four instructions, two of which allocate, and its boxes are one
object: the graph has eight nodes. -/
theorem pair_counts : ∃ w v, evaluator.instantiateName workspace ⟨3⟩ [] 12 = (w, .ok v) ∧
    ∃ p f₀ s₀ s, Evaluator.Evaluates evaluator workspace ⟨3⟩ [] w v p f₀ s₀ s ∧
      (s.total fun c => c.instrs.size + 1 + c.instrs.toList.countP Instr.allocates) = 8 := by
  obtain ⟨w, v, h⟩ := exists_pair
  have hsize : (match evaluator.instantiateName workspace ⟨3⟩ [] 12 with
      | (w, .ok v) => (w.graph v.graph).nodes.size
      | _ => 0) = 8 := by decide +kernel
  rw [h] at hsize
  obtain ⟨p, f₀, s₀, s, heval, -, -, -, -, htotal⟩ := Evaluator.instantiateName_counts h
  refine ⟨w, v, h, p, f₀, s₀, s, heval, ?_⟩
  have hempty : p.nodes.size = 0 := by
    obtain ⟨w₁, hprepare⟩ := heval.prepared
    cases hprepare
    rfl
  rw [hempty, Nat.zero_add] at htotal
  exact htotal.symm.trans hsize

end Sample

end ObjectModel
