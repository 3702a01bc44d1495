import ObjectModel.Proofs.Session.Layout

/-!
# Instantiations

An instantiation that is decided comes to the object that the memo table has under its key, or to
a new frame whose parts fit the class (`creation_eq_known`, `creation_eq_fresh`); with locals that
are there it fails for a reason of its own only (`creation_eq_error`). The memo table has exactly
the objects of the frames, each one under its key (`Session.Memoized`), and what a local is
recognized by never changes (`Grows.of_layout`).
-/

set_option autoImplicit false

namespace ObjectModel.Session

variable {env : Environment} {start : Nat} {s s' : Session}

/-! ## Keys -/

/-- What a position is recognized by stays the same while the session grows. -/
theorem Grows.of_layout (h : Layout env start s.nodes s.frames) (hn : s.nodes.Grows s'.nodes)
    (hf : ∀ {k : Nat} {f : Frame}, s.frames[k]? = some f → s'.frames[k]? = some f) :
    s.Grows s' where
  nodes := hn
  frames := hf
  memoArg := by
    intro id m hm
    rw [memoArg?] at hm ⊢
    obtain ⟨n, hid, rfl⟩ := Option.map_eq_some_iff.1 hm
    cases n with
    | binding slot state =>
      obtain ⟨f, hframe, -, -⟩ := h.owned hid
      obtain ⟨state', hid'⟩ := hn.binding hid
      rw [hid', Option.map_some]
      simp only [instr?, hframe, hf hframe]
    | _ => rw [hn.value hid rfl, Option.map_some]

/-- Whatever is not recognized by a literal is recognized by its own position. -/
theorem memoArg?_eq_ref {id : ValueId} {m : MemoArg} (h : s.memoArg? id = some m)
    (hm : ∀ l, m ≠ .literal l) : m = .ref id := by
  obtain ⟨n, -, hn⟩ := Option.map_eq_some_iff.1 h
  cases n with
  | literal l => exact absurd hn.symm (hm l)
  | binding slot state =>
    dsimp only at hn
    split at hn
    · exact absurd hn.symm (hm _)
    · exact hn.symm
  | _ => exact hn.symm

/-- A position of the arena is recognized by something. -/
theorem exists_memoArg? {id : ValueId} (h : id.index < s.nodes.size) :
    ∃ m, s.memoArg? id = some m := by
  obtain ⟨n, hn⟩ := Arena.exists_node? h
  rw [memoArg?, hn]
  exact ⟨_, rfl⟩

theorem exists_memoKey? {cls : Name} {args : List ValueId}
    (h : ∀ id ∈ args, id.index < s.nodes.size) : ∃ key, s.memoKey? cls args = some key := by
  obtain ⟨ms, hms⟩ := exists_mapM_eq_some fun id hid => exists_memoArg? (h id hid)
  rw [memoKey?, hms]
  exact ⟨_, rfl⟩

theorem memoKey?_cls {cls : Name} {args : List ValueId} {key : MemoKey}
    (h : s.memoKey? cls args = some key) : key.cls = cls := by
  obtain ⟨ms, -, rfl⟩ := Option.map_eq_some_iff.1 h
  rfl

/-- Instantiations with one key have arguments that are recognized by the same things. -/
theorem forall₂_memoArg?_of_memoKey? {cls cls' : Name} {xs ys : List ValueId} {key : MemoKey}
    (hx : s.memoKey? cls xs = some key) (hy : s.memoKey? cls' ys = some key) :
    List.Forall₂ (fun x y => ∃ m, s.memoArg? x = some m ∧ s.memoArg? y = some m) xs ys := by
  obtain ⟨ms, hms, rfl⟩ := Option.map_eq_some_iff.1 hx
  obtain ⟨ms', hms', heq⟩ := Option.map_eq_some_iff.1 hy
  cases heq
  have hxs := mapM_eq_some_iff.1 hms
  have hys := mapM_eq_some_iff.1 hms'
  clear hx hy hms hms'
  induction hxs generalizing ys with
  | nil =>
    cases hys
    exact .nil
  | cons hm _ ih =>
    cases hys with
    | cons hm' hrest => exact .cons ⟨_, hm, hm'⟩ (ih hrest)

/-- Arguments that are recognized by the same things make one key. -/
theorem memoKey?_eq_of_forall₂ {cls : Name} {xs ys : List ValueId}
    (h : List.Forall₂ (fun x y => s.memoArg? x = s.memoArg? y) xs ys) :
    s.memoKey? cls xs = s.memoKey? cls ys := by
  rw [memoKey?, memoKey?]
  refine congrArg _ ?_
  induction h with
  | nil => rfl
  | cons hm _ ih => rw [List.mapM_cons, List.mapM_cons, hm, ih]

/-! ## Decisions -/

theorem creation_eq_known {target : Name} {args : List ValueId} {o : ValueId}
    (h : s.creation env target args = .ok (.known o)) :
    env.shares = true ∧ ∃ key, s.memoKey? target args = some key ∧ s.memo.get? key = some o := by
  rw [creation] at h
  split at h
  · cases h
  · split at h
    · cases h
    · split at h
      · cases h
      · rename_i key hkey
        split at h
        · rename_i object hobject
          cases h
          split at hobject
          · rename_i hshares
            exact ⟨hshares, key, hkey, hobject⟩
          · cases hobject
        · split at h
          · cases h
          · dsimp only at h
            split at h <;> cases h

/-- An instantiation whose key the memo table has comes to the object there. -/
theorem creation_of_known {target : Name} {args : List ValueId} {c : ClassDef} {key : MemoKey}
    {o : ValueId} (hc : env.classes.lookup? target = some c)
    (hlength : args.length = c.params.length) (hkey : s.memoKey? target args = some key)
    (hshares : env.shares = true) (hget : s.memo.get? key = some o) :
    s.creation env target args = .ok (.known o) := by
  rw [creation]
  simp only [hc, hlength, hkey, hshares, hget, ne_eq, not_true_eq_false, if_false, if_true]

/-- What a new frame has to fulfil. -/
structure Fresh (env : Environment) (s : Session) (target : Name) (args : List ValueId)
    (f : Frame) (key : MemoKey) (fields : List ValueId) : Prop where
  lookup : env.classes.lookup? target = some f.cls
  params : f.params = args.toArray
  base : f.base = s.nodes.size
  length : args.length = f.cls.params.length
  keyed : s.memoKey? target args = some key
  new : env.shares = true → s.memo.get? key = none
  fields : f.locals? f.cls.yields = some fields
  limit : ∀ max, env.limits.instances = some max → s.frames.size < max

theorem creation_eq_fresh {target : Name} {args : List ValueId} {f : Frame} {key : MemoKey}
    {fields : List ValueId} (h : s.creation env target args = .ok (.fresh f key fields)) :
    Fresh env s target args f key fields := by
  rw [creation] at h
  split at h
  · cases h
  · rename_i cls hcls
    split at h
    · cases h
    · rename_i hlength
      split at h
      · cases h
      · rename_i key hkey
        split at h
        · cases h
        · rename_i hmemo
          split at h
          · cases h
          · rename_i hlimit
            dsimp only at h
            split at h
            · cases h
            · rename_i fields hfields
              cases h
              refine
                { lookup := hcls
                  params := rfl
                  base := rfl
                  length := Decidable.not_not.1 hlength
                  keyed := hkey
                  new := ?_
                  fields := hfields
                  limit := ?_ }
              · intro hshares
                rw [if_pos hshares] at hmemo
                exact hmemo
              · intro max hmax
                rw [hmax] at hlimit
                by_contra hle
                simp [Option.filter, Nat.le_of_not_lt hle] at hlimit

namespace Fresh

variable {target : Name} {args : List ValueId} {f : Frame} {key : MemoKey} {fields : List ValueId}

theorem cls_name (h : Fresh env s target args f key fields) : f.cls.name = target :=
  (ClassTable.of_lookup?_eq_some h.lookup).2

theorem toList_params (h : Fresh env s target args f key fields) : f.params.toList = args := by
  rw [h.params]

theorem params_size (h : Fresh env s target args f key fields) :
    f.params.size = f.cls.params.length := by
  rw [h.params, List.size_toArray, h.length]

/-- What fulfils this is what an instantiation comes to. -/
theorem creation (h : Fresh env s target args f key fields) :
    s.creation env target args = .ok (.fresh f key fields) := by
  have hmemo : (if env.shares then s.memo.get? key else none) = none := by
    split
    · rename_i hshares
      exact h.new hshares
    · rfl
  have hlimit : env.limits.instances.filter (· ≤ s.frames.size) = none := by
    rw [Option.filter_eq_none_iff]
    intro max hmax
    have := h.limit max hmax
    simp only [decide_eq_true_eq]
    omega
  have hframe : ({ cls := f.cls, params := args.toArray, base := s.nodes.size } : Frame) = f := by
    rw [← h.params, ← h.base]
  rw [Session.creation]
  simp only [h.lookup, h.length, h.keyed, hmemo, hlimit, hframe, h.fields, ne_eq, not_true_eq_false,
    if_false]

/-- A new frame leaves the layout of the session in order. -/
theorem layout (h : Fresh env s target args f key fields)
    (hs : Layout env start s.nodes s.frames) (hargs : ∀ id ∈ args, s.nodes.IsLocal start id) :
    Layout env start (s.addFrame f key fields).nodes (s.addFrame f key fields).frames := by
  refine hs.addBlock h.base ?_ h.params_size ?_ h.fields
  · rw [h.cls_name]
    exact h.lookup
  · intro p hp
    rw [← Array.mem_toList_iff, h.toList_params] at hp
    exact hargs p hp

end Fresh

/-- With arguments that are there, an instantiation is refused for an unknown class, a wrong number
of arguments or the limit on instances. -/
theorem creation_eq_error {target : Name} {args : List ValueId} {e : Failure}
    (hargs : ∀ id ∈ args, id.index < s.nodes.size) (h : s.creation env target args = .error e) :
    (env.classes.lookup? target = none ∧
        e = .error (.ofKind (.unknownClass (env.names.text target)))) ∨
      (∃ cls, env.classes.lookup? target = some cls ∧ args.length ≠ cls.params.length ∧
        e = .error (.ofKind (.parameterCountMismatch args.length cls.params.length))) ∨
      (∃ cls key max, env.classes.lookup? target = some cls ∧
        args.length = cls.params.length ∧ s.memoKey? target args = some key ∧
        (env.shares = true → s.memo.get? key = none) ∧ env.limits.instances = some max ∧
        max ≤ s.frames.size ∧ e = .error (.ofKind (.instanceLimit max))) := by
  rw [creation] at h
  split at h
  · rename_i hcls
    cases h
    exact Or.inl ⟨hcls, rfl⟩
  · rename_i cls hcls
    split at h
    · rename_i hlength
      cases h
      exact Or.inr (Or.inl ⟨cls, hcls, hlength, rfl⟩)
    · rename_i hlength
      have hlength' := Decidable.not_not.1 hlength
      split at h
      · rename_i hkey
        -- Arguments that are there have a key.
        obtain ⟨key, hkey'⟩ : ∃ key, s.memoKey? target args = some key := exists_memoKey? hargs
        rw [hkey] at hkey'
        cases hkey'
      · rename_i key hkey
        split at h
        · cases h
        · rename_i hmemo
          split at h
          · rename_i max hlimit
            cases h
            obtain ⟨hmax, hle⟩ := Option.filter_eq_some_iff.1 hlimit
            refine Or.inr (Or.inr ⟨cls, key, max, hcls, hlength', hkey, ?_, hmax, ?_, rfl⟩)
            · intro hshares
              rw [if_pos hshares] at hmemo
              exact hmemo
            · exact of_decide_eq_true hle
          · dsimp only at h
            split at h
            · rename_i hnone
              -- What a class yields is in range, so a new frame has fields.
              obtain ⟨fields, hfields⟩ := Frame.exists_locals?
                (f := { cls, params := args.toArray, base := s.nodes.size })
                (by rw [List.size_toArray, hlength']) cls.valid.yields_inRange
              rw [hnone] at hfields
              cases hfields
            · cases h

/-- An instantiation with arguments that are there is refused with an error of its own kind. -/
theorem specific_of_creation {target : Name} {args : List ValueId} {e : Failure}
    (hargs : ∀ id ∈ args, id.index < s.nodes.size) (h : s.creation env target args = .error e) :
    ∃ err : EvalError, e = .error err ∧ err.Specific := by
  rcases creation_eq_error hargs h with ⟨-, rfl⟩ | ⟨_, -, -, rfl⟩ | ⟨_, _, _, -, -, -, -, -, -, rfl⟩
  all_goals
    refine ⟨_, rfl, ?_⟩
    intro message hm
    cases hm

/-! ## The memo table -/

/-- The memo table has exactly the objects of the frames, each one under the key of its frame. -/
structure Memoized (env : Environment) (s : Session) : Prop where
  keyed : env.shares = true → ∀ {k : Nat} {f : Frame} {key : MemoKey}, s.frames[k]? = some f →
    s.memoKey? f.cls.name f.params.toList = some key → s.memo.get? key = some f.object
  origin : ∀ {key : MemoKey} {o : ValueId}, s.memo.get? key = some o →
    ∃ (k : Nat) (f : Frame), s.frames[k]? = some f ∧ f.object = o ∧
      s.memoKey? f.cls.name f.params.toList = some key

/-- A frame has a key. -/
theorem exists_memoKey?_of_layout (h : Layout env start s.nodes s.frames) {k : Nat} {f : Frame}
    (hf : s.frames[k]? = some f) : ∃ key, s.memoKey? f.cls.name f.params.toList = some key :=
  exists_memoKey? fun _ hid =>
    (h.params_local hf (Array.mem_toList_iff.1 hid)).lt h.start_le

/-- The key of a frame stays what it is. -/
theorem memoKey?_of_grows (h : Layout env start s.nodes s.frames) (hs : s.Grows s') {k : Nat}
    {f : Frame} (hf : s.frames[k]? = some f) :
    s'.memoKey? f.cls.name f.params.toList = s.memoKey? f.cls.name f.params.toList := by
  obtain ⟨key, hkey⟩ := exists_memoKey?_of_layout h hf
  rw [hkey, hs.memoKey hkey]

namespace Memoized

/-- A step that creates nothing keeps the memo table in order. -/
theorem of_grows (h : Memoized env s) (hl : Layout env start s.nodes s.frames) (hs : s.Grows s')
    (hframes : s'.frames = s.frames) (hmemo : s'.memo = s.memo) : Memoized env s' where
  keyed := by
    intro hshares k f key hf hkey
    rw [hframes] at hf
    rw [memoKey?_of_grows hl hs hf] at hkey
    rw [hmemo]
    exact h.keyed hshares hf hkey
  origin := by
    intro key o ho
    rw [hmemo] at ho
    obtain ⟨k, f, hf, hobj, hkey⟩ := h.origin ho
    exact ⟨k, f, hs.frames hf, hobj, hs.memoKey hkey⟩

/-- A new frame joins the memo table. -/
theorem addFrame (h : Memoized env s) (hl : Layout env start s.nodes s.frames) {target : Name}
    {args : List ValueId} {f : Frame} {key : MemoKey} {fields : List ValueId}
    (hf : Fresh env s target args f key fields) (hs : s.Grows (s.addFrame f key fields)) :
    Memoized env (s.addFrame f key fields) := by
  have hnew : (s.addFrame f key fields).memoKey? f.cls.name f.params.toList = some key := by
    rw [hf.toList_params, hf.cls_name]
    exact hs.memoKey hf.keyed
  have hget : ∀ key', (s.addFrame f key fields).memo.get? key' =
      if key = key' then some f.object else s.memo.get? key' :=
    fun key' => Index.get?_insert s.memo key f.object key'
  have hlast : (s.addFrame f key fields).frames[s.frames.size]? = some f :=
    Array.getElem?_push_size
  refine ⟨?_, ?_⟩
  · -- Under its key a frame is found: the new one because it was added, an old one because its key
    -- differs from the new key.
    intro hshares k g key' hk hkey'
    rw [hget]
    rcases eq_or_of_getElem?_push hk with ⟨-, rfl⟩ | hk
    · rw [hnew] at hkey'
      rw [if_pos (Option.some.inj hkey')]
    · rw [memoKey?_of_grows hl hs hk] at hkey'
      have hold := h.keyed hshares hk hkey'
      split
      · rename_i heq
        rw [← heq, hf.new hshares] at hold
        cases hold
      · exact hold
  · intro key' o ho
    rw [hget] at ho
    split at ho
    · rename_i heq
      subst heq
      exact ⟨_, f, hlast, Option.some.inj ho, hnew⟩
    · obtain ⟨k, g, hk, hobj, hkey⟩ := h.origin ho
      exact ⟨k, g, hs.frames hk, hobj, hs.memoKey hkey⟩

end Memoized

end ObjectModel.Session
