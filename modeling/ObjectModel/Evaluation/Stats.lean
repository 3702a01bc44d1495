/-!
# Evaluation counters

What one evaluation did. The counters are 64 bits wide and wrap around.
-/

set_option autoImplicit false

namespace ObjectModel

/-- The counters of one evaluation. -/
structure Stats where
  instructions : UInt64 := 0
  objects : UInt64 := 0
  memoHits : UInt64 := 0
deriving DecidableEq, Repr, Inhabited

namespace Stats

/-- Count an evaluated instruction. -/
def countInstruction (s : Stats) : Stats := { s with instructions := s.instructions + 1 }

/-- Count a created object. -/
def countObject (s : Stats) : Stats := { s with objects := s.objects + 1 }

/-- Count an object that was found instead of created. -/
def countMemoHit (s : Stats) : Stats := { s with memoHits := s.memoHits + 1 }

/-- The summary for a reader. -/
def report (s : Stats) : String :=
  "Evaluation profile:" ++
    "\n  Instructions evaluated: " ++ toString s.instructions ++
    "\n  Objects created:        " ++ toString s.objects ++
    "\n  Memo hits:              " ++ toString s.memoHits

/-- The inspection text of the counters. -/
def inspect (s : Stats) : String :=
  "EvalStats \x7b instructions_evaluated: " ++ toString s.instructions ++
    ", objects_created: " ++ toString s.objects ++
    ", memo_hits: " ++ toString s.memoHits ++ " \x7d"

end Stats

end ObjectModel
