import Mathlib.Data.List.Induction
import ObjectModel.Proofs.ClassDrafts
import ObjectModel.Proofs.Intake.Names

/-!
# Tables under construction

Builders of class tables in one workspace: each has an interner, its own or that of another builder,
and classes finished with any of these interners are offered to any of them. Which classes a builder
accepted is read off the replies alone (`Workshop.accepted`); its table holds just these, in that
order (`Workshop.held_after`), and answers for them and for no other class:
this is `Workshop.tables_after`.
-/

set_option autoImplicit false

namespace ObjectModel

/-! ## Defining and looking up classes -/

namespace ClassTable

variable {t u : ClassTable} {c : ClassDef} {n : Name} {clsText : String}

theorem lookup?_eq_some_iff : t.lookup? n = some c ↔ c ∈ t.classes ∧ c.name = n := by
  refine ⟨of_lookup?_eq_some, ?_⟩
  rintro ⟨hc, rfl⟩
  cases hfound : t.lookup? c.name with
  | none => exact absurd (List.mem_map_of_mem hc) (lookup?_eq_none_iff.1 hfound)
  | some d =>
    obtain ⟨hd, hname⟩ := of_lookup?_eq_some hfound
    exact congrArg some (List.inj_on_of_nodup_map t.names_nodup hd hc hname)

/-- A class is found by the text of its name. -/
theorem lookupText?_eq_some_iff {names : Interner} (h : ∀ c ∈ t.classes, names.Issued c.name)
    {s : String} : t.lookupText? names s = some c ↔ c ∈ t.classes ∧ names.text c.name = s := by
  rw [lookupText?, Option.bind_eq_some_iff]
  constructor
  · rintro ⟨n, hn, hc⟩
    obtain ⟨hmem, rfl⟩ := lookup?_eq_some_iff.1 hc
    exact ⟨hmem, (Interner.issued_of_get? hn).2⟩
  · rintro ⟨hmem, rfl⟩
    exact ⟨c.name, Interner.get?_text (h c hmem), lookup?_eq_some_iff.2 ⟨hmem, rfl⟩⟩

theorem define_eq_ok_iff : t.define clsText c = .ok u ↔
    ∃ (own : c.interner = t.interner) (fresh : c.name ∉ t.classes.map ClassDef.name),
      u = t.append c own fresh := by
  unfold define
  split
  · rename_i own
    split
    · rename_i fresh
      rw [Except.ok.injEq]
      exact ⟨fun h => ⟨own, fresh, h.symm⟩, fun ⟨_, _, h⟩ => h.symm⟩
    · rename_i taken
      simp only [reduceCtorEq, taken, IsEmpty.exists_iff, exists_false]
  · rename_i foreign
    simp only [reduceCtorEq, foreign, IsEmpty.exists_iff]

/-- A class of another interner is refused before a class whose name is taken. -/
theorem define_eq_error_iff {err : ClassError} : t.define clsText c = .error err ↔
    (c.interner ≠ t.interner ∧ err = .foreignInterner clsText) ∨
      (c.interner = t.interner ∧ c.name ∈ t.classes.map ClassDef.name ∧
        err = .duplicateClass clsText) := by
  unfold define
  split
  · rename_i own
    split
    · rename_i fresh
      simp only [reduceCtorEq, own, ne_eq, not_true, false_and, true_and, fresh, false_or]
    · rename_i taken
      rw [Except.error.injEq]
      simp only [own, ne_eq, not_true, false_and, true_and, not_not.1 taken, false_or, eq_comm]
  · rename_i foreign
    rw [Except.error.injEq]
    simp only [foreign, ne_eq, not_false_eq_true, true_and, false_and, or_false, eq_comm]

end ClassTable

/-! ## Builders -/

/-- A table under construction, and the table that it was finished to. -/
structure TableBuilder where
  draft : ClassTable
  built : Option TableId := none

/-- Builders of class tables, and the classes that were finished so far. -/
structure Workshop where
  workspace : Workspace := {}
  builders : Array TableBuilder := #[]
  classes : Array ClassDef := #[]

/-- What builders can be asked. Builders and classes are told by their numbers. -/
inductive WorkshopCall where
  /-- Start a builder with a new interner. -/
  | start
  /-- Start a builder with the interner of another one. -/
  | share (b : ℕ)
  /-- Intern a string with the interner of a builder. -/
  | intern (b : ℕ) (s : String)
  /-- Finish the class of that name that some calls describe, with the interner of a builder. -/
  | finish (b : ℕ) (cls : String) (calls : List DraftCall)
  /-- Offer a finished class to a builder. -/
  | define (b k : ℕ)
  /-- Finish a table. Nothing can be defined in it afterwards. -/
  | build (b : ℕ)
  /-- The class of that name in a finished table. -/
  | lookup (id : TableId) (s : String)

/-- What builders answer. -/
inductive WorkshopReply where
  | done
  | defined (outcome : Except ClassError Unit)
  | found (c : Option ClassDef)

namespace Workshop

/-- The answer to a call, and the builders after it. A call that names none of the builders or
classes there are does nothing. -/
def reply (s : Workshop) : WorkshopCall → WorkshopReply × Workshop
  | .start =>
    let (id, w) := s.workspace.addInterner
    (.done, { s with workspace := w, builders := s.builders.push { draft := .empty id } })
  | .share b =>
    match s.builders[b]? with
    | some B =>
      (.done, { s with builders := s.builders.push { draft := .empty B.draft.interner } })
    | none => (.done, s)
  | .intern b text =>
    match s.builders[b]? with
    | some B => (.done, { s with workspace := (s.workspace.intern B.draft.interner text).2 })
    | none => (.done, s)
  | .finish b cls calls =>
    match s.builders[b]? with
    | some B =>
      let (n, w) := s.workspace.intern B.draft.interner cls
      match (ClassDraft.after B.draft.interner n calls).finish (w.interner B.draft.interner) with
      | .ok c => (.done, { s with workspace := w, classes := s.classes.push c })
      | .error _ => (.done, { s with workspace := w })
    | none => (.done, s)
  | .define b k =>
    match s.builders[b]?, s.classes[k]? with
    | some ⟨t, none⟩, some c =>
      match s.workspace.define t c with
      | .ok t => (.defined (.ok ()), { s with builders := s.builders.setIfInBounds b ⟨t, none⟩ })
      | .error err => (.defined (.error err), s)
    | _, _ => (.done, s)
  | .build b =>
    match s.builders[b]? with
    | some ⟨t, none⟩ =>
      let (id, w) := s.workspace.addTable t
      (.done, { s with workspace := w, builders := s.builders.setIfInBounds b ⟨t, some id⟩ })
    | _ => (.done, s)
  | .lookup id text =>
    (.found ((s.workspace.table id).lookupText? (s.workspace.tableNames id) text), s)

/-- The builders after some calls. -/
def after (calls : List WorkshopCall) : Workshop := calls.foldl (fun s c => (s.reply c).2) {}

/-- The class that a builder accepts in a call. -/
def accepts? (s : Workshop) (b : ℕ) : WorkshopCall → Option ClassDef
  | .define b' k =>
    match (s.reply (.define b' k)).1 with
    | .defined (.ok ()) => if b' = b then s.classes[k]? else none
    | .defined (.error _) | .done | .found _ => none
  | _ => none

/-- The classes that a builder accepts in some calls, in order. -/
def acceptedFrom (s : Workshop) (b : ℕ) : List WorkshopCall → List ClassDef
  | [] => []
  | c :: rest => (s.accepts? b c).toList ++ acceptedFrom (s.reply c).2 b rest

/-- The classes that a builder accepted, in order. -/
def accepted (calls : List WorkshopCall) (b : ℕ) : List ClassDef := acceptedFrom {} b calls

/-- The classes in the draft of a builder, none if there is no such builder yet. -/
def held (s : Workshop) (b : ℕ) : List ClassDef := (s.builders[b]?.map (·.draft.classes)).getD []

variable {s : Workshop} {b : ℕ} {B : TableBuilder}

theorem held_of_getElem? (h : s.builders[b]? = some B) : s.held b = B.draft.classes := by
  rw [held, h]
  rfl

/-! ## One more call -/

theorem after_concat (calls : List WorkshopCall) (c : WorkshopCall) :
    after (calls ++ [c]) = ((after calls).reply c).2 := by
  rw [after, List.foldl_append]
  rfl

theorem acceptedFrom_append (s : Workshop) (b : ℕ) (calls more : List WorkshopCall) :
    acceptedFrom s b (calls ++ more) = acceptedFrom s b calls ++
      acceptedFrom (calls.foldl (fun s c => (s.reply c).2) s) b more := by
  induction calls generalizing s with
  | nil => rfl
  | cons c rest ih => simp only [List.cons_append, acceptedFrom, ih, List.append_assoc,
      List.foldl_cons]

theorem accepted_concat (calls : List WorkshopCall) (c : WorkshopCall) (b : ℕ) :
    accepted (calls ++ [c]) b = accepted calls b ++ ((after calls).accepts? b c).toList := by
  rw [accepted, acceptedFrom_append]
  simp only [acceptedFrom, List.append_nil]
  rfl

/-- A builder that is started holds nothing. -/
theorem held_push (s : Workshop) (b : ℕ) (id : InternerId) (w : Workspace) :
    { s with workspace := w, builders := s.builders.push { draft := .empty id } }.held b =
      s.held b := by
  rw [held, held, Array.getElem?_push]
  split
  · rename_i hb
    rw [hb, Array.getElem?_eq_none (Nat.le_refl _)]
    rfl
  · rfl

theorem held_set (h : s.builders[b]? = some B) (t : ClassTable) (built : Option TableId)
    (w : Workspace) (j : ℕ) :
    { s with workspace := w, builders := s.builders.setIfInBounds b ⟨t, built⟩ }.held j =
      if b = j then t.classes else s.held j := by
  have hlt := (Array.getElem?_eq_some_iff.1 h).1
  rw [held, Array.getElem?_setIfInBounds]
  split
  · rfl
  · rfl

/-- A builder that is asked to define a class and is not finished yet does so or refuses it. -/
theorem reply_define {k : ℕ} {c : ClassDef} {t : ClassTable}
    (hB : s.builders[b]? = some { draft := t }) (hc : s.classes[k]? = some c) :
    s.reply (.define b k) =
      match s.workspace.define t c with
      | .ok u =>
        (.defined (.ok ()), { s with builders := s.builders.setIfInBounds b { draft := u } })
      | .error err => (.defined (.error err), s) := by
  rw [reply, hB, hc]

/-- What a call that defines something finds. -/
theorem reply_define_cases (s : Workshop) (b k : ℕ) :
    s.reply (.define b k) = (.done, s) ∨ ∃ t c, s.builders[b]? = some { draft := t } ∧
      s.classes[k]? = some c := by
  rw [reply]
  split
  · rename_i t c hB hc
    exact Or.inr ⟨t, c, hB, hc⟩
  · exact Or.inl rfl

/-- A builder holds one class more exactly if it accepts one. -/
theorem held_reply (s : Workshop) (c : WorkshopCall) (b : ℕ) :
    (s.reply c).2.held b = s.held b ++ (s.accepts? b c).toList := by
  cases c with
  | start =>
    exact (s.held_push b _ _).trans (List.append_nil _).symm
  | share b' =>
    refine Eq.trans ?_ (List.append_nil _).symm
    rw [reply]
    split
    · exact s.held_push b _ _
    · rfl
  | intern b' text =>
    refine Eq.trans ?_ (List.append_nil _).symm
    rw [reply]
    split <;> rfl
  | finish b' cls calls =>
    refine Eq.trans ?_ (List.append_nil _).symm
    rw [reply]
    split
    · dsimp only
      split <;> rfl
    · rfl
  | define b' k =>
    rw [accepts?]
    rcases s.reply_define_cases b' k with hnone | ⟨t, c, hB, hc⟩
    · simp only [hnone, Option.toList_none, List.append_nil]
    · rw [reply_define hB hc]
      cases hdefine : s.workspace.define t c with
      | error err => simp
      -- The class goes to the end of the builder that was asked, and to no other one.
      | ok u =>
        obtain ⟨own, fresh, rfl⟩ := ClassTable.define_eq_ok_iff.1 hdefine
        dsimp only
        rw [held_set hB, hc]
        split
        · rename_i hb
          rw [← hb, held_of_getElem? hB]
          rfl
        · simp
  | build b' =>
    refine Eq.trans ?_ (List.append_nil _).symm
    rw [reply]
    split
    · rename_i t hB
      dsimp only
      rw [held_set hB]
      split
      · rename_i hb
        rw [← hb, held_of_getElem? hB]
      · rfl
    · rfl
  | lookup id text => exact (List.append_nil _).symm

/-- A builder holds the classes that it accepted, in order. -/
theorem held_after (calls : List WorkshopCall) (b : ℕ) :
    (after calls).held b = accepted calls b := by
  induction calls using List.reverseRecOn with
  | nil => rfl
  | append_singleton calls c ih => rw [after_concat, held_reply, ih, accepted_concat]

/-! ## What the builders rely on -/

/-- Interners are there, names belong to them, and finished tables are in the workspace. -/
structure Sound (s : Workshop) : Prop where
  interner_lt : ∀ {b : ℕ} {B : TableBuilder}, s.builders[b]? = some B →
    B.draft.interner.index < s.workspace.interners.size
  issued : ∀ c ∈ s.classes, (s.workspace.interner c.interner).Issued c.name
  finished : ∀ {b : ℕ} {B : TableBuilder}, s.builders[b]? = some B →
    ∀ c ∈ B.draft.classes, c ∈ s.classes
  built : ∀ {b : ℕ} {B : TableBuilder}, s.builders[b]? = some B →
    ∀ id, B.built = some id → s.workspace.tables[id.index]? = some B.draft

namespace Sound

theorem empty : Sound {} where
  interner_lt h := by simp at h
  issued _ h := by simp at h
  finished h := by simp at h
  built h := by simp at h

/-- The workspace may gain interners, names and tables. -/
theorem workspace (h : s.Sound) {w : Workspace}
    (hsize : s.workspace.interners.size ≤ w.interners.size)
    (hissued : ∀ {id : InternerId} {n : Name}, (s.workspace.interner id).Issued n →
      (w.interner id).Issued n)
    (htables : ∀ {i : ℕ} {t : ClassTable}, s.workspace.tables[i]? = some t →
      w.tables[i]? = some t) : Sound { s with workspace := w } where
  interner_lt hB := Nat.lt_of_lt_of_le (h.interner_lt hB) hsize
  issued c hc := hissued (h.issued c hc)
  finished := h.finished
  built hB id hid := htables (h.built hB id hid)

theorem intern (h : s.Sound) (id : InternerId) (text : String) :
    Sound { s with workspace := (s.workspace.intern id text).2 } := by
  refine h.workspace (Nat.le_of_eq ?_) (fun hn => Workspace.issued_intern hn id text) fun ht => ht
  exact (Array.size_setIfInBounds ..).symm

theorem addInterner (h : s.Sound) : Sound { s with workspace := s.workspace.addInterner.2 } := by
  refine h.workspace ?_ ?_ fun ht => ht
  · rw [Workspace.addInterner, Array.size_push]
    exact Nat.le_succ _
  · -- An interner that was not there was read as the empty one, which it is now.
    intro id n hn
    have heq : s.workspace.addInterner.2.interner id = s.workspace.interner id := by
      rw [Workspace.interner, Workspace.interner, Workspace.addInterner, Array.getElem?_push]
      split
      · rename_i hid
        rw [hid, Array.getElem?_eq_none (Nat.le_refl _)]
        rfl
      · rfl
    rwa [heq]

theorem addTable (h : s.Sound) (t : ClassTable) :
    Sound { s with workspace := (s.workspace.addTable t).2 } := by
  refine h.workspace (Nat.le_refl _) (fun hn => hn) fun ht => ?_
  obtain ⟨hlt, rfl⟩ := Array.getElem?_eq_some_iff.1 ht
  exact Array.getElem?_push_lt hlt

theorem addBuilder (h : s.Sound) {id : InternerId} (hid : id.index < s.workspace.interners.size) :
    Sound { s with builders := s.builders.push { draft := .empty id } } := by
  have hcases : ∀ {b : ℕ} {B : TableBuilder},
      (s.builders.push { draft := .empty id })[b]? = some B →
        B = { draft := .empty id } ∨ s.builders[b]? = some B := by
    intro b B hB
    rw [Array.getElem?_push] at hB
    split at hB
    · exact Or.inl (Option.some.inj hB).symm
    · exact Or.inr hB
  refine ⟨fun hB => ?_, h.issued, fun hB => ?_, fun hB => ?_⟩
  · rcases hcases hB with rfl | hB
    · exact hid
    · exact h.interner_lt hB
  · rcases hcases hB with rfl | hB
    · exact fun c hc => absurd hc List.not_mem_nil
    · exact h.finished hB
  · rcases hcases hB with rfl | hB
    · exact fun id hid => nomatch hid
    · exact h.built hB

theorem addClass (h : s.Sound) {c : ClassDef}
    (hc : (s.workspace.interner c.interner).Issued c.name) :
    Sound { s with classes := s.classes.push c } := by
  refine ⟨h.interner_lt, fun d hd => ?_, fun hB d hd => ?_, h.built⟩
  · rcases Array.mem_push.1 hd with hd | rfl
    · exact h.issued d hd
    · exact hc
  · exact Array.mem_push.2 (Or.inl (h.finished hB d hd))

/-- A builder may change if its interner stays and its classes were finished. -/
theorem setBuilder (h : s.Sound) {b : ℕ} {B C : TableBuilder} (hB : s.builders[b]? = some B)
    (hinterner : C.draft.interner = B.draft.interner)
    (hfinished : ∀ c ∈ C.draft.classes, c ∈ B.draft.classes ∨ c ∈ s.classes)
    (hbuilt : ∀ id, C.built = some id → s.workspace.tables[id.index]? = some C.draft) :
    Sound { s with builders := s.builders.setIfInBounds b C } := by
  have hcases : ∀ {j : ℕ} {D : TableBuilder},
      (s.builders.setIfInBounds b C)[j]? = some D → D = C ∨ s.builders[j]? = some D := by
    intro j D hD
    rw [Array.getElem?_setIfInBounds] at hD
    split at hD
    · split at hD
      · exact Or.inl (Option.some.inj hD).symm
      · cases hD
    · exact Or.inr hD
  refine ⟨fun hD => ?_, h.issued, fun hD => ?_, fun hD => ?_⟩
  · rcases hcases hD with rfl | hD
    · rw [hinterner]
      exact h.interner_lt hB
    · exact h.interner_lt hD
  · rcases hcases hD with rfl | hD
    · intro c hc
      rcases hfinished c hc with hc | hc
      · exact h.finished hB c hc
      · exact hc
    · exact h.finished hD
  · rcases hcases hD with rfl | hD
    · exact hbuilt
    · exact h.built hD

theorem reply (h : s.Sound) (c : WorkshopCall) : (s.reply c).2.Sound := by
  cases c with
  | start =>
    refine h.addInterner.addBuilder ?_
    show s.workspace.interners.size < (s.workspace.interners.push .empty).size
    rw [Array.size_push]
    exact Nat.lt_succ_self _
  | share b =>
    rw [Workshop.reply]
    split
    · rename_i B hB
      exact h.addBuilder (h.interner_lt hB)
    · exact h
  | intern b text =>
    rw [Workshop.reply]
    split
    · exact h.intern _ text
    · exact h
  | finish b cls calls =>
    rw [Workshop.reply]
    split
    · rename_i B hB
      dsimp only
      split
      · -- The name of the class was interned by this call, and the calls of the draft keep it.
        rename_i c hc
        refine (h.intern B.draft.interner cls).addClass ?_
        obtain ⟨-, rfl⟩ := ClassDraft.finish_eq_ok_iff.1 hc
        obtain ⟨hinterner, hname⟩ := ClassDraft.after_named B.draft.interner
          (s.workspace.intern B.draft.interner cls).1 calls
        dsimp only
        rw [hinterner, hname]
        exact (Workspace.text_fst_intern (h.interner_lt hB) cls).1
      · exact h.intern _ cls
    · exact h
  | define b k =>
    rcases s.reply_define_cases b k with hnone | ⟨t, c, hB, hc⟩
    · rw [hnone]
      exact h
    · rw [reply_define hB hc]
      cases hdefine : s.workspace.define t c with
      | error err => exact h
      | ok u =>
        obtain ⟨own, fresh, rfl⟩ := ClassTable.define_eq_ok_iff.1 hdefine
        refine h.setBuilder hB rfl (fun d hd => ?_) (fun id hid => nomatch hid)
        rcases List.mem_append.1 hd with hd | hd
        · exact Or.inl hd
        · rw [List.mem_singleton.1 hd]
          exact Or.inr (Array.mem_of_getElem? hc)
  | build b =>
    rw [Workshop.reply]
    split
    · rename_i t hB
      -- The new table is the last one of the workspace.
      refine (h.addTable t).setBuilder hB rfl (fun d hd => Or.inl hd) fun id hid => ?_
      rw [← Option.some.inj hid]
      exact Array.getElem?_push_size
    · exact h
  | lookup id text => exact h

end Sound

/-- Whatever the calls were, the builders can rely on it. -/
theorem sound_after (calls : List WorkshopCall) : (after calls).Sound := by
  induction calls using List.reverseRecOn with
  | nil => exact .empty
  | append_singleton calls c ih =>
    rw [after_concat]
    exact ih.reply c

end Workshop

/-! ## Later calls -/

/-- A builder later on: it has the interner that it had, and it is as it was once its table is
finished. -/
structure TableBuilder.Later (B C : TableBuilder) : Prop where
  interner : C.draft.interner = B.draft.interner
  built : ∀ id, B.built = some id → C = B

theorem TableBuilder.Later.refl (B : TableBuilder) : B.Later B := ⟨rfl, fun _ _ => rfl⟩

theorem TableBuilder.Later.trans {B C D : TableBuilder} (h : B.Later C) (h' : C.Later D) :
    B.Later D where
  interner := h'.interner.trans h.interner
  built id hid := by
    obtain rfl := h.built id hid
    exact h'.built id hid

namespace Workshop

variable {s : Workshop} {b : ℕ} {B : TableBuilder}

theorem exists_later_push (h : s.builders[b]? = some B) (C : TableBuilder) :
    ∃ D, (s.builders.push C)[b]? = some D ∧ B.Later D := by
  obtain ⟨hlt, rfl⟩ := Array.getElem?_eq_some_iff.1 h
  exact ⟨_, Array.getElem?_push_lt hlt, .refl _⟩

/-- A builder may change as long as its table is not finished. -/
theorem exists_later_set (h : s.builders[b]? = some B) {j : ℕ} {t : ClassTable} {C : TableBuilder}
    (hj : s.builders[j]? = some { draft := t }) (hC : C.draft.interner = t.interner) :
    ∃ D, (s.builders.setIfInBounds j C)[b]? = some D ∧ B.Later D := by
  have hlt := (Array.getElem?_eq_some_iff.1 hj).1
  rw [Array.getElem?_setIfInBounds]
  split
  · -- The builder that changes was not finished, so nothing is asked of its table.
    rename_i hjb
    rw [← hjb, hj] at h
    cases h
    exact ⟨C, rfl, hC, fun id hid => nomatch hid⟩
  · exact ⟨B, h, .refl B⟩

/-- A builder keeps its number. -/
theorem exists_later_reply (h : s.builders[b]? = some B) (c : WorkshopCall) :
    ∃ C, (s.reply c).2.builders[b]? = some C ∧ B.Later C := by
  cases c with
  | start => exact exists_later_push h _
  | share b' =>
    rw [reply]
    split
    · exact exists_later_push h _
    · exact ⟨B, h, .refl B⟩
  | intern b' text =>
    rw [reply]
    split <;> exact ⟨B, h, .refl B⟩
  | finish b' cls calls =>
    rw [reply]
    split
    · dsimp only
      split <;> exact ⟨B, h, .refl B⟩
    · exact ⟨B, h, .refl B⟩
  | define b' k =>
    rcases s.reply_define_cases b' k with hnone | ⟨t, c, hB, hc⟩
    · rw [hnone]
      exact ⟨B, h, .refl B⟩
    · rw [reply_define hB hc]
      cases hdefine : s.workspace.define t c with
      | error err => exact ⟨B, h, .refl B⟩
      | ok u =>
        obtain ⟨own, fresh, rfl⟩ := ClassTable.define_eq_ok_iff.1 hdefine
        exact exists_later_set h hB rfl
  | build b' =>
    rw [reply]
    split
    · rename_i t hB
      exact exists_later_set h hB rfl
    · exact ⟨B, h, .refl B⟩
  | lookup id text => exact ⟨B, h, .refl B⟩

theorem exists_later_after {calls : List WorkshopCall} (h : (after calls).builders[b]? = some B)
    (more : List WorkshopCall) :
    ∃ C, (after (calls ++ more)).builders[b]? = some C ∧ B.Later C := by
  induction more using List.reverseRecOn with
  | nil =>
    rw [List.append_nil]
    exact ⟨B, h, .refl B⟩
  | append_singleton more c ih =>
    obtain ⟨C, hC, hlater⟩ := ih
    obtain ⟨D, hD, hlater'⟩ := exists_later_reply hC c
    rw [← List.append_assoc, after_concat]
    exact ⟨D, hD, hlater.trans hlater'⟩

/-! ## What a builder accepts, and what its table answers -/

/-- A builder accepts a class of its interner if it accepted none of that name before. Any other
class is refused, one of another interner for that reason, whatever its name. -/
theorem reply_define_after {calls : List WorkshopCall} {t : ClassTable} {k : ℕ} {c : ClassDef}
    (hB : (after calls).builders[b]? = some { draft := t })
    (hc : (after calls).classes[k]? = some c) :
    (((after calls).reply (.define b k)).1 = .defined (.ok ()) ↔
      c.interner = t.interner ∧ ∀ d ∈ accepted calls b, d.name ≠ c.name) ∧
    ∀ {err : ClassError}, (after calls).reply (.define b k) = (.defined (.error err), after calls) ↔
      (c.interner ≠ t.interner ∧
        err = .foreignInterner (((after calls).workspace.interner c.interner).text c.name)) ∨
      (c.interner = t.interner ∧ (∃ d ∈ accepted calls b, d.name = c.name) ∧
        err = .duplicateClass (((after calls).workspace.interner c.interner).text c.name)) := by
  have hheld : t.classes = accepted calls b := by rw [← held_after, held_of_getElem? hB]
  rw [reply_define hB hc, ← hheld]
  refine ⟨?_, fun {err} => ?_⟩
  · cases hdefine : (after calls).workspace.define t c with
    | ok u =>
      obtain ⟨own, fresh, -⟩ := ClassTable.define_eq_ok_iff.1 hdefine
      simpa [own] using fresh
    | error err =>
      rcases ClassTable.define_eq_error_iff.1 hdefine with ⟨hne, -⟩ | ⟨-, htaken, -⟩
      · simp [hne]
      · simpa using fun _ => htaken
  · have hiff := @ClassTable.define_eq_error_iff t c
      (((after calls).workspace.interner c.interner).text c.name) err
    rw [List.mem_map] at hiff
    rw [← hiff]
    change _ ↔ (after calls).workspace.define t c = _
    cases (after calls).workspace.define t c with
    | ok u => simp
    | error err' => simp

/-- A finished table has the classes that its builder accepted. -/
theorem table_after {calls : List WorkshopCall} {id : TableId}
    (hB : (after calls).builders[b]? = some B) (hid : B.built = some id) :
    (after calls).workspace.table id = B.draft ∧
      B.draft.classes = accepted calls b ∧
      ∀ c ∈ B.draft.classes, ((after calls).workspace.tableNames id).Issued c.name := by
  -- The table is the draft, whose classes were all finished with its interner.
  have hsound := sound_after calls
  have htable : (after calls).workspace.table id = B.draft := by
    rw [Workspace.table, hsound.built hB id hid, Option.getD_some]
  refine ⟨htable, by rw [← held_after, held_of_getElem? hB], fun c hc => ?_⟩
  rw [Workspace.tableNames, htable, ← B.draft.interner_eq c hc]
  exact hsound.issued c (hsound.finished hB c hc)

/-- A builder accepts just the classes of its interner whose name no class has that it accepted
before, and one of another interner is refused as such, whatever its name; a class that is refused
leaves everything as it is. The table that it is finished to has these classes in the order in which
they were accepted, one for each name, and answers for them by their names and by the texts of
these. A look-up changes nothing, and no call changes the interner of a builder or a finished
table. -/
theorem tables_after (calls : List WorkshopCall) {b : ℕ} {B : TableBuilder}
    (hB : (after calls).builders[b]? = some B) :
    (∀ {k : ℕ} {c : ClassDef}, B.built = none → (after calls).classes[k]? = some c →
      (((after calls).reply (.define b k)).1 = .defined (.ok ()) ↔
        c.interner = B.draft.interner ∧ ∀ d ∈ accepted calls b, d.name ≠ c.name) ∧
      (∀ {err : ClassError},
        (after calls).reply (.define b k) = (.defined (.error err), after calls) ↔
          (c.interner ≠ B.draft.interner ∧
            err = .foreignInterner (((after calls).workspace.interner c.interner).text c.name)) ∨
          (c.interner = B.draft.interner ∧ (∃ d ∈ accepted calls b, d.name = c.name) ∧
            err = .duplicateClass (((after calls).workspace.interner c.interner).text c.name)))) ∧
    (∀ {id : TableId}, B.built = some id →
      ((after calls).workspace.table id).classes = accepted calls b ∧
      ((accepted calls b).map ClassDef.name).Nodup ∧
      ((after calls).workspace.table id).size = (accepted calls b).length ∧
      (∀ {n : Name} {c : ClassDef}, ((after calls).workspace.table id).lookup? n = some c ↔
        c ∈ accepted calls b ∧ c.name = n) ∧
      ∀ {s : String}, ((after calls).reply (.lookup id s)).2 = after calls ∧
        ∀ {c : ClassDef}, ((after calls).reply (.lookup id s)).1 = .found (some c) ↔
          c ∈ accepted calls b ∧ ((after calls).workspace.tableNames id).text c.name = s) ∧
    ∀ more : List WorkshopCall,
      ∃ C, (after (calls ++ more)).builders[b]? = some C ∧ B.Later C := by
  refine ⟨?_, ?_, exists_later_after hB⟩
  · obtain ⟨t, built⟩ := B
    rintro k c rfl hc
    exact reply_define_after hB hc
  · intro id hid
    obtain ⟨htable, hclasses, hissued⟩ := table_after hB hid
    rw [htable, ← hclasses]
    refine ⟨rfl, B.draft.names_nodup, rfl, ClassTable.lookup?_eq_some_iff, fun {s} => ⟨rfl, ?_⟩⟩
    intro c
    rw [reply, WorkshopReply.found.injEq, htable]
    exact ClassTable.lookupText?_eq_some_iff hissued

end Workshop

namespace Sample

open WorkshopCall

/-- Two builders with an interner each, and a class of each. Both names have the number 1. -/
def benchCalls : List WorkshopCall :=
  [start, start, finish 0 "Leaf" [.yields []], finish 1 "Twig" [.yields []], define 0 0]

/-- The first builder refuses the class of the second one as foreign, although the number of its
name is taken, and its own class when it is offered again; its table finds this class by its
text. -/
theorem bench_tables :
    (Workshop.after benchCalls).reply (define 0 1) =
      (.defined (.error (.foreignInterner "Twig")), Workshop.after benchCalls) ∧
    (Workshop.after benchCalls).reply (define 0 0) =
      (.defined (.error (.duplicateClass "Leaf")), Workshop.after benchCalls) ∧
    ∃ c, ((Workshop.after (benchCalls ++ [build 0])).reply (lookup ⟨0⟩ "Leaf")).1 =
      .found (some c) := by
  have hopen : (Workshop.after benchCalls).builders[0]?.map
      (fun B => (B.built, B.draft.interner)) = some (none, ⟨0⟩) := by decide
  have hleaf : (Workshop.after benchCalls).classes[0]?.map
      (fun c => (c.interner, c.name)) = some (⟨0⟩, ⟨1⟩) := by decide
  have htwig : (Workshop.after benchCalls).classes[1]?.map
      (fun c => (c.interner, c.name)) = some (⟨1⟩, ⟨1⟩) := by decide
  have haccepted : (Workshop.accepted benchCalls 0).map ClassDef.name = [⟨1⟩] := by decide
  have hbuilt : (Workshop.after (benchCalls ++ [build 0])).builders[0]?.map TableBuilder.built =
      some (some ⟨0⟩) := by decide
  have htext : (Workshop.accepted (benchCalls ++ [build 0]) 0).map
      (fun c => ((Workshop.after (benchCalls ++ [build 0])).workspace.tableNames ⟨0⟩).text c.name) =
        ["Leaf"] := by decide
  obtain ⟨B, hB, hB'⟩ := Option.map_eq_some_iff.1 hopen
  obtain ⟨leaf, hleaf, hleaf'⟩ := Option.map_eq_some_iff.1 hleaf
  obtain ⟨twig, htwig, htwig'⟩ := Option.map_eq_some_iff.1 htwig
  obtain ⟨C, hC, hC'⟩ := Option.map_eq_some_iff.1 hbuilt
  obtain ⟨hdefine, -, -⟩ := Workshop.tables_after benchCalls hB
  obtain ⟨-, htable, -⟩ := Workshop.tables_after (benchCalls ++ [build 0]) hC
  simp only [Prod.mk.injEq] at hB' hleaf' htwig'
  refine ⟨(hdefine hB'.1 htwig).2.2 (Or.inl ⟨?_, ?_⟩),
    (hdefine hB'.1 hleaf).2.2 (Or.inr ⟨?_, ?_, ?_⟩), ?_⟩
  · rw [htwig'.1, hB'.2]
    decide
  · rw [htwig'.1, htwig'.2]
    decide
  · rw [hleaf'.1, hB'.2]
  · obtain ⟨d, hd, hname⟩ := List.mem_map.1 (haccepted ▸ List.mem_singleton_self (Name.mk 1))
    exact ⟨d, hd, hname.trans hleaf'.2.symm⟩
  · rw [hleaf'.1, hleaf'.2]
    decide
  · obtain ⟨-, -, -, -, hlookup⟩ := htable hC'
    obtain ⟨c, hc, hname⟩ := List.mem_map.1 (htext ▸ List.mem_singleton_self "Leaf")
    exact ⟨c, hlookup.2.2 ⟨hc, hname⟩⟩

end Sample

end ObjectModel
