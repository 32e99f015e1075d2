import AmbientFs.Cutoff
import AmbientFs.Database

/-!
# Retention

The daemon prunes its database once a day, and the command line does when it is asked to. Events
and analyses are written meanwhile. Which of the operations come between two prunes, and what the
clock says at each of them, is not restricted.
-/

namespace AmbientFs

open Sql (Db DbError Op)

inductive PruneError
  | database (e : DbError)
  | vacuum
  /-- The task that prunes panics. -/
  | join

/-- The rows that were pruned, of events and of analyses, and what is left. A step that fails
leaves what those before it have done. `vacuums` is whether the file can be rewritten, with what it
holds. -/
def pruneBefore (cutoff : DateTime) (vacuums : Bool) (now : DateTime) (db : Db) :
    Except PruneError (ℕ × ℕ) × Db :=
  match Sql.Migrations.ensureSchema now db with
  | .error e => (.error (.database e), db)
  | .ok db =>
    match Sql.EventPruner.pruneEventsBefore db cutoff with
    | .error e => (.error (.database e), db)
    | .ok (events, db) =>
      match Sql.EventPruner.pruneAnalysisBefore db cutoff with
      | .error e => (.error (.database e), db)
      | .ok (analysis, db) =>
        if (0 < events ∨ 0 < analysis) ∧ vacuums = false then (.error .vacuum, db)
        else (.ok (events, analysis), db)

/-- Prune scheduler for periodic cleanup of old events. -/
structure PruneScheduler where
  config : PruneConfig
  /-- In seconds. -/
  interval : ℕ

namespace PruneScheduler

def new (retentionDays : ℤ) : PruneScheduler := ⟨⟨retentionDays⟩, 24 * 3600⟩

/-- A single prune cycle. It panics if there is no cutoff. -/
def pruneCycle (s : PruneScheduler) (vacuums : Bool) (now : DateTime) (db : Db) :
    Option (Except PruneError (ℕ × ℕ) × Db) :=
  (s.config.cutoffTimestamp now).map fun cutoff => pruneBefore cutoff vacuums now db

end PruneScheduler

def Cli.cmdPrune (retentionDays : ℤ) (vacuums : Bool) (now : DateTime) (db : Db) :
    Except PruneError (ℕ × ℕ) × Db :=
  match (PruneConfig.mk retentionDays).cutoffTimestamp now with
  | none => (.error .join, db)
  | some cutoff => pruneBefore cutoff vacuums now db

inductive StoreAction
  | exec (now : DateTime) (op : Op)
  | cycle (vacuums : Bool) (now : DateTime)
  | cmdPrune (retentionDays : ℤ) (vacuums : Bool) (now : DateTime)

/-- An operation that fails leaves the database as it is. -/
def StoreAction.run (scheduler : PruneScheduler) (json : Sql.SerdeJson)
    (planner : Sqlite.Planner Sql.ColumnName) (db : Db) : StoreAction → Db
  | .exec now op =>
    match op.exec json planner now db with
    | .ok (_, db) => db
    | .error _ => db
  | .cycle vacuums now =>
    match scheduler.pruneCycle vacuums now db with
    | none => db
    | some (_, db) => db
  | .cmdPrune retentionDays vacuums now => (Cli.cmdPrune retentionDays vacuums now db).2

end AmbientFs
