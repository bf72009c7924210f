import Mathlib.Data.List.Basic

/-!
# A database of atomic transactions

A database over contents `D` is what it started with and the writes of every transaction that was committed,
in the order of the commits. A commit adds a version and changes none: a reader of version `v` reads the
same contents after any number of commits (`contentAt_commit`). Writes of a transaction that is not
committed are seen by that transaction alone.
-/

section CommitLog

variable {D : Type*}

/-- Run the writes in order. -/
def applyWrites (writes : List (D → D)) (d : D) : D := writes.foldl (fun d f => f d) d

@[simp] theorem applyWrites_append (ws ws' : List (D → D)) (d : D) :
    applyWrites (ws ++ ws') d = applyWrites ws' (applyWrites ws d) := by
  simp [applyWrites, List.foldl_append]

/-- The initial contents and the writes of each committed transaction. -/
structure CommitLog (D : Type*) where
  init : D
  committed : List (List (D → D))

namespace CommitLog

variable (db : CommitLog D)

/-- The number of the latest version. -/
def version : Nat := db.committed.length

/-- What a reader of version `v` reads. -/
def contentAt (v : Nat) : D := applyWrites (db.committed.take v).flatten db.init

/-- What the next transaction finds. -/
def latest : D := applyWrites db.committed.flatten db.init

/-- Commit a transaction with these writes. -/
def commit (writes : List (D → D)) : CommitLog D := { db with committed := db.committed ++ [writes] }

variable {db}

@[simp] theorem contentAt_version : db.contentAt db.version = db.latest := by
  simp [contentAt, version, latest]

/-- A version, once written, is not changed. -/
theorem contentAt_commit (writes : List (D → D)) {v : Nat} (h : v ≤ db.version) :
    (db.commit writes).contentAt v = db.contentAt v := by
  unfold contentAt commit
  rw [List.take_append_of_le_length h]

end CommitLog

end CommitLog
