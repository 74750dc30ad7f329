import MyS3.LevelTotals

/-!
Renaming a folder. The new keys are checked one by one against the active keys of the
bucket, and then the rows are updated one by one in a transaction. No new key is an
active key of the bucket before, and no two of them are alike, so that no update is
refused, however the two prefixes are nested.
-/

namespace MyS3.FolderRenames

open Library.Strings Library.Tables Library.Like
open Models Objects Database Engine Repository Keys FolderPrefixes LevelTotals

/-- A statement of `rename_prefix`. -/
inductive RenameCall
  | list
  | conflict (index : Nat)
  | begin
  | update (index : Nat)
  | commit

/-- An error of `rename_prefix`: a query that failed, or one of its own. -/
inductive RenameFailure
  | query
  | refused (err : RenameError)

/-- The conflict checks, from the one with the given index on. -/
def checkRenames (fails : RenameCall → Bool) (db : Db) (bucketId : Int)
    (fromPrefix toPrefix : Text) :
    Nat → List ObjectRecord → Except RenameFailure (List (Int × Text))
  | _, [] => .ok []
  | i, row :: rest =>
    match stripPrefix fromPrefix row.originalFilename with
    | none => checkRenames fails db bucketId fromPrefix toPrefix (i + 1) rest
    | some tail =>
      let newKey := toPrefix ++ tail
      if fails (.conflict i) then .error .query
      else
        match getObjectByFilenameInBucket db newKey bucketId with
        | some _ => .error (.refused (.targetExists newKey))
        | none =>
          match checkRenames fails db bucketId fromPrefix toPrefix (i + 1) rest with
          | .error err => .error err
          | .ok plan => .ok ((row.id, newKey) :: plan)

/-- The updates on the copy of the transaction; `none` is a refused or failed one. -/
def updateKeys (fails : RenameCall → Bool) (now : Instant) :
    Nat → Db → List (Int × Text) → Option Db
  | _, working, [] => some working
  | i, working, (id, newKey) :: rest =>
    if fails (.update i) then none
    else
      (working.updateObjectsChecked (fun r => r.id == id && isActive r) (rename now newKey)).bind
        fun working => updateKeys fails now (i + 1) working rest

/-- `rename_prefix`, with the database it leaves; a transaction that is not committed is
rolled back. -/
def runRename (fails : RenameCall → Bool) (db : Db) (now : Instant) (bucketId : Int)
    (fromPrefix toPrefix : Text) : Except RenameFailure Nat × Db :=
  if fromPrefix = toPrefix then (.ok 0, db)
  else if fails .list then (.error .query, db)
  else
    let rows := listKeysUnderPrefix db bucketId fromPrefix
    if rows = [] then (.error (.refused .emptyFolder), db)
    else
      match checkRenames fails db bucketId fromPrefix toPrefix 0 rows with
      | .error err => (.error err, db)
      | .ok plan =>
        if fails .begin then (.error .query, db)
        else
          match updateKeys fails now 0 db plan with
          | none => (.error .query, db)
          | some working =>
            if fails .commit then (.error .query, db) else (.ok plan.length, working)

/-- Checks that do not fail give the plan. -/
theorem checkRenames_ok {fails : RenameCall → Bool} {db : Db} {b : Int}
    {fromPrefix toPrefix : Text} {rows : List ObjectRecord} {i : Nat} {plan : List (Int × Text)}
    (h : checkRenames fails db b fromPrefix toPrefix i rows = .ok plan) :
    planRenames db b fromPrefix toPrefix rows = .ok plan := by
  induction rows generalizing i plan with
  | nil =>
    cases h
    rfl
  | cons row rest ih =>
    unfold checkRenames at h
    unfold planRenames
    cases hstrip : stripPrefix fromPrefix row.originalFilename with
    | none =>
      simp only [hstrip] at h ⊢
      exact ih h
    | some tail =>
      simp only [hstrip] at h ⊢
      split_ifs at h
      cases hconflict : getObjectByFilenameInBucket db (toPrefix ++ tail) b with
      | some r =>
        rw [hconflict] at h
        cases h
      | none =>
        simp only [hconflict] at h ⊢
        cases hrest : checkRenames fails db b fromPrefix toPrefix (i + 1) rest with
        | error err =>
          rw [hrest] at h
          cases h
        | ok plan' =>
          rw [hrest] at h
          cases h
          rw [ih hrest]

theorem updateKeys_some {fails : RenameCall → Bool} {now : Instant} {plan : List (Int × Text)}
    {i : Nat} {db db' : Db} (h : updateKeys fails now i db plan = some db') :
    applyRenames now db plan = some db' := by
  induction plan generalizing i db with
  | nil => exact h
  | cons e rest ih =>
    obtain ⟨id, newKey⟩ := e
    unfold updateKeys at h
    split_ifs at h
    obtain ⟨working, hworking, hrest⟩ := Option.bind_eq_some_iff.mp h
    exact Option.bind_eq_some_iff.mpr ⟨working, hworking, ih hrest⟩

/-- What a run of the rename did: nothing, or what the plan says. -/
theorem runRename_cases (fails : RenameCall → Bool) (db : Db) (now : Instant) (b : Int)
    {fromPrefix toPrefix : Text} (hne : fromPrefix ≠ toPrefix) :
    (∃ err, runRename fails db now b fromPrefix toPrefix = (.error err, db)) ∨
      ∃ plan db', runRename fails db now b fromPrefix toPrefix = (.ok plan.length, db') ∧
        planRenames db b fromPrefix toPrefix (listKeysUnderPrefix db b fromPrefix) = .ok plan ∧
        applyRenames now db plan = some db' := by
  unfold runRename
  rw [if_neg hne]
  by_cases hlist : fails .list = true
  · exact Or.inl ⟨_, if_pos hlist⟩
  rw [if_neg hlist]
  by_cases hrows : listKeysUnderPrefix db b fromPrefix = []
  · exact Or.inl ⟨_, if_pos hrows⟩
  simp only [if_neg hrows]
  cases hplan : checkRenames fails db b fromPrefix toPrefix 0
      (listKeysUnderPrefix db b fromPrefix) with
  | error err => exact Or.inl ⟨err, rfl⟩
  | ok plan =>
    simp only
    by_cases hbegin : fails .begin = true
    · exact Or.inl ⟨_, if_pos hbegin⟩
    rw [if_neg hbegin]
    cases happly : updateKeys fails now 0 db plan with
    | none => exact Or.inl ⟨_, rfl⟩
    | some working =>
      by_cases hcommit : fails .commit = true
      · exact Or.inl ⟨_, if_pos hcommit⟩
      · exact Or.inr ⟨plan, working, if_neg hcommit, checkRenames_ok hplan, updateKeys_some happly⟩

/-- The plan has the listed rows that begin with the prefix, and its keys are free. -/
theorem planRenames_ok {db : Db} {b : Int} {fromPrefix toPrefix : Text}
    {rows : List ObjectRecord} {plan : List (Int × Text)}
    (h : planRenames db b fromPrefix toPrefix rows = .ok plan) :
    plan = (rows.filter fun r => startsWith fromPrefix r.originalFilename).map
        (fun r => (r.id, toPrefix ++ r.originalFilename.drop fromPrefix.length)) ∧
      ∀ e ∈ plan, getObjectByFilenameInBucket db e.2 b = none := by
  induction rows generalizing plan with
  | nil =>
    cases h
    exact ⟨rfl, by simp⟩
  | cons row rest ih =>
    unfold planRenames at h
    cases hstrip : stripPrefix fromPrefix row.originalFilename with
    | none =>
      simp only [hstrip] at h
      have hno : startsWith fromPrefix row.originalFilename = false := by
        rw [← Bool.not_eq_true, startsWith_iff]
        exact stripPrefix_eq_none.mp hstrip
      rw [List.filter_cons, hno]
      exact ih h
    | some tail =>
      simp only [hstrip] at h
      have hkey := stripPrefix_eq_some.mp hstrip
      have hyes : startsWith fromPrefix row.originalFilename = true :=
        startsWith_iff.mpr ⟨tail, hkey⟩
      have htail : row.originalFilename.drop fromPrefix.length = tail := by
        rw [← hkey, List.drop_left]
      cases hconflict : getObjectByFilenameInBucket db (toPrefix ++ tail) b with
      | some r =>
        rw [hconflict] at h
        cases h
      | none =>
        simp only [hconflict] at h
        cases hrest : planRenames db b fromPrefix toPrefix rest with
        | error err =>
          rw [hrest] at h
          cases h
        | ok plan' =>
          rw [hrest] at h
          cases h
          obtain ⟨hplan, hfree⟩ := ih hrest
          refine ⟨?_, ?_⟩
          · rw [List.filter_cons, hyes, if_pos rfl, List.map_cons, htail, ← hplan]
          · intro e he
            rcases List.mem_cons.mp he with rfl | he
            · exact hconflict
            · exact hfree e he

/-- What a plan makes of a row. -/
def renamedBy (now : Instant) (plan : List (Int × Text)) (r : ObjectRecord) : ObjectRecord :=
  match plan.find? fun e => e.1 == r.id with
  | some e => (rename now e.2).apply r
  | none => r

/-- A plan that can be applied update by update: it names active rows of the bucket once
each, and new keys once each that no active row of the bucket has. -/
structure Fresh (db : Db) (b : Int) (plan : List (Int × Text)) : Prop where
  ids : plan.Pairwise fun e f => e.1 ≠ f.1
  keys : plan.Pairwise fun e f => e.2 ≠ f.2
  rows : ∀ e ∈ plan, ∀ r ∈ db.object.rows, r.id = e.1 → r.deletedAt = none ∧ r.bucketId = b
  free : ∀ e ∈ plan, ∀ r ∈ db.object.rows, activeKey r ≠ some (b, e.2)

theorem Fresh.take {db : Db} {b : Int} {plan : List (Int × Text)} (h : Fresh db b plan)
    (k : Nat) : Fresh db b (plan.take k) where
  ids := h.ids.sublist (List.take_sublist k plan)
  keys := h.keys.sublist (List.take_sublist k plan)
  rows e he := h.rows e (List.mem_of_mem_take he)
  free e he := h.free e (List.mem_of_mem_take he)

theorem activeKey_rename {now : Instant} {newKey : Text} {r : ObjectRecord}
    (h : r.deletedAt = none) :
    activeKey ((rename now newKey).apply r) = some (r.bucketId, newKey) :=
  activeKey_eq_some.mpr ⟨h, rfl, rfl⟩

/-- One update of a fresh plan: it is not refused, and the rest of the plan stays fresh. -/
theorem fresh_step {db : Db} (now : Instant) {b : Int} {id : Int} {newKey : Text}
    {rest : List (Int × Text)} (h : Fresh db b ((id, newKey) :: rest)) :
    ∃ next, db.updateObjectsChecked (fun r => r.id == id && isActive r) (rename now newKey) =
        some next ∧
      next.object.rows = db.object.rows.map (renamedBy now [(id, newKey)]) ∧
      Fresh next b rest := by
  have hrow := h.rows (id, newKey) List.mem_cons_self
  have hfree := h.free (id, newKey) List.mem_cons_self
  have hunique : UniqueOn activeKey (updateRows (fun r => r.id == id && isActive r)
      (rename now newKey).apply db.object.rows) := by
    refine db.object.active_unique.update_fresh (k := (b, newKey)) ?_ ?_ hfree
    · refine db.object.id_unique.imp ?_
      intro x y hxy h'
      obtain ⟨hx, hy⟩ := h'
      simp only [Bool.and_eq_true, beq_iff_eq] at hx hy
      exact hxy (hx.1.trans hy.1.symm)
    · intro r hr hp
      simp only [Bool.and_eq_true, beq_iff_eq] at hp
      obtain ⟨hactive, hbucket⟩ := hrow r hr hp.1
      rw [activeKey_rename hactive, hbucket]
  have hsome : (db.updateObjectsChecked (fun r => r.id == id && isActive r)
      (rename now newKey)).isSome = true := by
    unfold Db.updateObjectsChecked
    split
    · rename_i hnone
      unfold ObjectTable.updateChecked at hnone
      rw [dif_pos hunique] at hnone
      cases hnone
    · rfl
  obtain ⟨next, hnext⟩ := Option.isSome_iff_exists.mp hsome
  obtain ⟨hrows, _⟩ := Db.updateObjectsChecked_rows hnext
  have hmap : next.object.rows = db.object.rows.map (renamedBy now [(id, newKey)]) := by
    rw [hrows]
    apply List.map_congr_left
    intro r hr
    by_cases hid : r.id = id
    · have hactive : isActive r = true := isActive_iff.mpr (hrow r hr hid).1
      simp [renamedBy, hid, hactive]
    · have hid' : ¬ id = r.id := fun h => hid h.symm
      simp [renamedBy, hid, hid']
  obtain ⟨hids, hidsRest⟩ := List.pairwise_cons.mp h.ids
  obtain ⟨hkeys, hkeysRest⟩ := List.pairwise_cons.mp h.keys
  refine ⟨next, hnext, hmap, hidsRest, hkeysRest, ?_, ?_⟩
  · intro e he r hr hid
    rw [hrows] at hr
    rcases mem_updateRows.mp hr with ⟨hr, _⟩ | ⟨a, ha, _, rfl⟩
    · exact h.rows e (List.mem_cons_of_mem _ he) r hr hid
    · exact h.rows e (List.mem_cons_of_mem _ he) a ha hid
  · intro e he r hr
    rw [hrows] at hr
    rcases mem_updateRows.mp hr with ⟨hr, _⟩ | ⟨a, ha, hp, rfl⟩
    · exact h.free e (List.mem_cons_of_mem _ he) r hr
    · simp only [Bool.and_eq_true, isActive_iff] at hp
      rw [activeKey_rename hp.2]
      intro heq
      exact hkeys e he (Prod.mk.inj (Option.some.inj heq)).2

/-- No update of a fresh plan is refused, and together they rename its rows. -/
theorem applyRenames_fresh {db : Db} (now : Instant) {b : Int} {plan : List (Int × Text)}
    (h : Fresh db b plan) : ∃ db', applyRenames now db plan = some db' ∧
      db'.object.rows = db.object.rows.map (renamedBy now plan) := by
  induction plan generalizing db with
  | nil => exact ⟨db, rfl, (List.map_id _).symm⟩
  | cons e rest ih =>
    obtain ⟨id, newKey⟩ := e
    obtain ⟨next, hnext, hmap, hfresh⟩ := fresh_step now h
    obtain ⟨db', hdb', hrows⟩ := ih hfresh
    refine ⟨db', Option.bind_eq_some_iff.mpr ⟨next, hnext, hdb'⟩, ?_⟩
    rw [hrows, hmap, List.map_map]
    apply List.map_congr_left
    intro r _
    obtain ⟨hids, _⟩ := List.pairwise_cons.mp h.ids
    by_cases hid : r.id = id
    · have hnone : rest.find? (fun e => e.1 == id) = none := by
        rw [List.find?_eq_none]
        intro e he heq
        exact hids e he (beq_iff_eq.mp heq).symm
      have hsame : (renamedBy now [(id, newKey)] r).id = id := by simp [renamedBy, hid, rename]
      have hfirst : renamedBy now ((id, newKey) :: rest) r = (rename now newKey).apply r := by
        simp [renamedBy, hid]
      rw [Function.comp_apply, hfirst, renamedBy, hsame, hnone]
      simp [renamedBy, hid]
    · have hid' : ¬ id = r.id := fun h => hid h.symm
      simp [renamedBy, hid']

/-- What the rename makes of a row. -/
def moveRow (now : Instant) (b : Int) (fromPrefix toPrefix : Text) (r : ObjectRecord) :
    ObjectRecord :=
  if isUnder (some b) fromPrefix r then
    { r with
      originalFilename := toPrefix ++ r.originalFilename.drop fromPrefix.length
      dateModified := now.currentTimestamp.text }
  else r

section plan

variable {db : Db} {b : Int} {fromPrefix toPrefix : Text} {plan : List (Int × Text)}

/-- The rows that a rename moves, in the order of their keys. -/
abbrev movedRows (db : Db) (b : Int) (fromPrefix : Text) : List ObjectRecord :=
  (listKeysUnderPrefix db b fromPrefix).filter fun r => startsWith fromPrefix r.originalFilename

theorem movedRows_perm : (movedRows db b fromPrefix).Perm (rowsUnder db (some b) fromPrefix) := by
  refine ((List.perm_insertionSort _ _).filter _).trans ?_
  rw [List.filter_filter, rowsUnder]
  apply List.Perm.of_eq
  apply List.filter_congr
  intro r _
  unfold isUnder
  by_cases hkey : startsWith fromPrefix r.originalFilename = true
  · have hunder : underPrefix fromPrefix r.originalFilename = true :=
      underPrefix_iff.mpr (foldedPrefix_of_isPrefix (startsWith_iff.mp hkey))
    have hsymm : (b == r.bucketId) = (r.bucketId == b) := BEq.comm
    simp [hkey, hunder, hsymm]
  · rw [Bool.not_eq_true] at hkey
    simp [hkey]

theorem mem_movedRows {r : ObjectRecord} : r ∈ movedRows db b fromPrefix ↔
    r ∈ db.object.rows ∧ r.deletedAt = none ∧ r.bucketId = b ∧
      fromPrefix <+: r.originalFilename := by
  rw [movedRows_perm.mem_iff, rowsUnder, List.mem_filter, isUnder_iff]
  simp only [Option.all_some, beq_iff_eq, eq_comm (a := b)]

/-- The new keys of two rows are different, since their keys are. -/
theorem eq_of_newKey {r r' : ObjectRecord} (hr : r ∈ movedRows db b fromPrefix)
    (hr' : r' ∈ movedRows db b fromPrefix)
    (h : toPrefix ++ r.originalFilename.drop fromPrefix.length =
      toPrefix ++ r'.originalFilename.drop fromPrefix.length) : r = r' := by
  obtain ⟨hmem, hactive, hbucket, tail, htail⟩ := mem_movedRows.mp hr
  obtain ⟨hmem', hactive', hbucket', tail', htail'⟩ := mem_movedRows.mp hr'
  rw [← htail, ← htail', List.drop_left, List.drop_left] at h
  apply db.object.eq_of_active hmem hmem' hactive hactive' (hbucket.trans hbucket'.symm)
  rw [← htail, ← htail', List.append_cancel_left h]

theorem fresh_of_plan (h : planRenames db b fromPrefix toPrefix
    (listKeysUnderPrefix db b fromPrefix) = .ok plan) : Fresh db b plan := by
  obtain ⟨rfl, hfree⟩ := planRenames_ok h
  have hids : (movedRows db b fromPrefix).Pairwise fun r r' => r.id ≠ r'.id := by
    refine (movedRows_perm.pairwise_iff fun h => Ne.symm h).mpr ?_
    exact db.object.id_unique.sublist List.filter_sublist
  refine ⟨?_, ?_, ?_, ?_⟩
  · exact List.pairwise_map.mpr hids
  · refine List.pairwise_map.mpr (hids.imp_of_mem ?_)
    intro r r' hr hr' hne heq
    exact hne (congrArg ObjectRecord.id (eq_of_newKey hr hr' heq))
  · intro e he r hr hid
    obtain ⟨r', hr', rfl⟩ := List.mem_map.mp he
    obtain ⟨hmem', hactive', hbucket', _⟩ := mem_movedRows.mp hr'
    rw [db.object.eq_of_id hr hmem' hid]
    exact ⟨hactive', hbucket'⟩
  · intro e he r hr hkey
    obtain ⟨hactive, hbucket, hname⟩ := activeKey_eq_some.mp hkey
    exact getObjectByFilenameInBucket_eq_none.mp (hfree e he) r hr hname hbucket hactive

theorem renamedBy_plan (now : Instant) (h : planRenames db b fromPrefix toPrefix
    (listKeysUnderPrefix db b fromPrefix) = .ok plan) {r : ObjectRecord}
    (hr : r ∈ db.object.rows) : renamedBy now plan r = moveRow now b fromPrefix toPrefix r := by
  obtain ⟨rfl, _⟩ := planRenames_ok h
  have hunder : isUnder (some b) fromPrefix r = true ↔ r ∈ movedRows db b fromPrefix := by
    rw [movedRows_perm.mem_iff, rowsUnder, List.mem_filter, and_iff_right hr]
  unfold renamedBy moveRow
  by_cases hmoved : r ∈ movedRows db b fromPrefix
  · rw [if_pos (hunder.mpr hmoved)]
    have hfind : (movedRows db b fromPrefix).find? (fun r' => r'.id == r.id) = some r := by
      apply find_eq_of_unique hmoved (by simp)
      intro r' hr' hid
      exact db.object.eq_of_id (mem_movedRows.mp hr').1 hr (beq_iff_eq.mp hid)
    rw [List.find?_map]
    have hsame : ((fun e : Int × Text => e.1 == r.id) ∘ fun r' : ObjectRecord =>
        (r'.id, toPrefix ++ r'.originalFilename.drop fromPrefix.length)) =
        fun r' => r'.id == r.id := rfl
    rw [hsame, hfind]
    rfl
  · rw [if_neg (fun h => hmoved (hunder.mp h))]
    have hnone : ((movedRows db b fromPrefix).map fun r' =>
        (r'.id, toPrefix ++ r'.originalFilename.drop fromPrefix.length)).find?
        (fun e => e.1 == r.id) = none := by
      rw [List.find?_eq_none]
      intro e he heq
      obtain ⟨r', hr', rfl⟩ := List.mem_map.mp he
      have heq' := db.object.eq_of_id (mem_movedRows.mp hr').1 hr (beq_iff_eq.mp heq)
      exact hmoved (heq' ▸ hr')
    rw [hnone]

end plan

/-- A rename that succeeded: exactly the active rows of the bucket under the prefix have
new keys, no update was refused on the way, and what is under the prefix now was moved
there. -/
structure MovedFolder (db db' : Db) (now : Instant) (b : Int) (fromPrefix toPrefix : Text)
    (affected : Nat) : Prop where
  rows : db'.object.rows = db.object.rows.map (moveRow now b fromPrefix toPrefix)
  count : affected = (rowsUnder db (some b) fromPrefix).length
  updates : ∃ plan,
    planRenames db b fromPrefix toPrefix (listKeysUnderPrefix db b fromPrefix) = .ok plan ∧
      applyRenames now db plan = some db' ∧
      ∀ k, ∃ working, applyRenames now db (plan.take k) = some working ∧
        UniqueOn activeKey working.object.rows
  left : ∀ r ∈ rowsUnder db' (some b) fromPrefix,
    (∃ a ∈ rowsUnder db (some b) fromPrefix, moveRow now b fromPrefix toPrefix a = r) ∧
      (fromPrefix <+: toPrefix ∨ toPrefix <+: fromPrefix)

/-- A key that has the prefix after the rename was moved, to or from a folder above. -/
theorem moved_of_left {now : Instant} {b : Int} {fromPrefix toPrefix : Text}
    {r : ObjectRecord}
    (h : isUnder (some b) fromPrefix (moveRow now b fromPrefix toPrefix r) = true) :
    isUnder (some b) fromPrefix r = true ∧ (fromPrefix <+: toPrefix ∨ toPrefix <+: fromPrefix) := by
  by_cases hunder : isUnder (some b) fromPrefix r = true
  · refine ⟨hunder, ?_⟩
    rw [moveRow, if_pos hunder] at h
    exact List.prefix_or_prefix_of_prefix (isUnder_iff.mp h).2.2 (List.prefix_append _ _)
  · rw [moveRow, if_neg hunder] at h
    exact absurd h hunder

/-- Renaming a folder, with any of its statements failing, changes nothing and is an error,
or moves exactly the active rows under the prefix. Only a move to a folder below or above
leaves keys under the old prefix, and those were moved there. -/
theorem rename_moves_folder (fails : RenameCall → Bool) (db : Db) (now : Instant) (b : Int)
    (fromPrefix toPrefix : Text) (hne : fromPrefix ≠ toPrefix) :
    (∃ err, runRename fails db now b fromPrefix toPrefix = (.error err, db)) ∨
      ∃ affected db', runRename fails db now b fromPrefix toPrefix = (.ok affected, db') ∧
        MovedFolder db db' now b fromPrefix toPrefix affected := by
  rcases runRename_cases fails db now b hne with herr | ⟨plan, db', hrun, hplan, happly⟩
  · exact Or.inl herr
  · have hfresh := fresh_of_plan hplan
    obtain ⟨_, hall, hrows⟩ := applyRenames_fresh now hfresh
    rw [happly] at hall
    cases hall
    have hmoved : db'.object.rows = db.object.rows.map (moveRow now b fromPrefix toPrefix) := by
      rw [hrows]
      exact List.map_congr_left fun r hr => renamedBy_plan now hplan hr
    refine Or.inr ⟨plan.length, db', hrun, hmoved, ?_, ⟨plan, hplan, happly, ?_⟩, ?_⟩
    · obtain ⟨rfl, _⟩ := planRenames_ok hplan
      rw [List.length_map]
      exact movedRows_perm.length_eq
    · intro k
      obtain ⟨working, hworking, _⟩ := applyRenames_fresh now (hfresh.take k)
      exact ⟨working, hworking, working.object.active_unique⟩
    · intro r hr
      obtain ⟨hmem, hunder⟩ := List.mem_filter.mp hr
      rw [hmoved] at hmem
      obtain ⟨a, ha, rfl⟩ := List.mem_map.mp hmem
      obtain ⟨hbefore, hnested⟩ := moved_of_left hunder
      exact ⟨⟨a, List.mem_filter.mpr ⟨ha, hbefore⟩, rfl⟩, hnested⟩

/-- A folder with a folder of its own name in it. -/
def foldedTwice : Db := (holding ["a/b/b/x".toList, "a/y".toList]).db

theorem rename_moves_folder_up :
    (∃ err, runRename (fun _ => false) foldedTwice Instant.epoch 1 "a/b/".toList "a/".toList =
        (.error err, foldedTwice)) ∨
      ∃ affected db', runRename (fun _ => false) foldedTwice Instant.epoch 1 "a/b/".toList
          "a/".toList = (.ok affected, db') ∧
        MovedFolder foldedTwice db' Instant.epoch 1 "a/b/".toList "a/".toList affected :=
  rename_moves_folder (fun _ => false) foldedTwice Instant.epoch 1 "a/b/".toList "a/".toList
    (by decide)

/-- Moving `a/b/` up to `a/` succeeds and makes `a/b/x` of `a/b/b/x`. -/
theorem rename_up_keeps_prefix :
    let run := runRename (fun _ => false) foldedTwice Instant.epoch 1 "a/b/".toList "a/".toList
    normalizeFolderPrefix "a/b".toList = .ok "a/b/".toList ∧
      normalizeFolderPrefix "a".toList = .ok "a/".toList ∧ run.1.toOption = some 1 ∧
      (rowsUnder run.2 (some 1) "a/b/".toList).map (·.originalFilename) = ["a/b/x".toList] ∧
      ¬ "a/b/".toList <+: "a/".toList := by
  decide

end MyS3.FolderRenames
