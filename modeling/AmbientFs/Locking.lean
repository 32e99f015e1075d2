import AmbientFs.Lib.Locks
import AmbientFs.Subscriptions

/-!
# The manager's locks

The operations of the subscription manager as tasks take and drop its two locks. A subscription
takes the channels' lock and then, holding it, the counts' lock; an unsubscription takes the
counts' lock and then, holding it and only if the count has come to zero, the channels' lock.
-/

namespace AmbientFs

open Locks

inductive ManagerLock
  | projects
  | counts
  deriving DecidableEq

inductive ManagerOp
  | subscribe (projectId : String)
  | unsubscribe (projectId : String)
  | broadcast (n : Notification)
  deriving DecidableEq

namespace ManagerOp

/-- A guard is dropped at the end of its block, the later one first. -/
def prog : ManagerOp → Prog ManagerLock SubscriptionManager
  | subscribe projectId =>
    .acquire .projects .write <| .acquire .counts .write <|
    .run (fun m => (m.subscribe projectId).1) fun _ =>
    .release .counts <| .release .projects .done
  | unsubscribe projectId =>
    .acquire .counts .write <|
    .run (fun m => (m.decrement projectId).1) fun m =>
      if (m.decrement projectId).2 then
        .acquire .projects .write <| .run (fun m => m.removeProject projectId) fun _ =>
        .release .projects <| .release .counts .done
      else .release .counts .done
  | broadcast n =>
    .acquire .projects .read <| .run (fun m => m.broadcast n) fun _ => .release .projects .done

def isSubscribe : ManagerOp → Bool
  | subscribe _ => true
  | _ => false

/-- Run alone, the tasks are the manager's operations, and drop what they took. -/
theorem exec_subscribe (m : SubscriptionManager) (p : String) :
    (subscribe p).prog.exec m = (m.subscribe p).1 := rfl

theorem exec_unsubscribe (m : SubscriptionManager) (p : String) :
    (unsubscribe p).prog.exec m = m.unsubscribe p := by
  unfold SubscriptionManager.unsubscribe
  simp only [prog, Prog.exec]
  split_ifs <;> rfl

theorem exec_broadcast (m : SubscriptionManager) (n : Notification) :
    (broadcast n).prog.exec m = m.broadcast n := rfl

theorem holdsAfter_prog (op : ManagerOp) (m : SubscriptionManager) :
    op.prog.holdsAfter m (fun _ => none) = fun _ => none := by
  funext l
  cases op with
  | subscribe p => cases l <;> rfl
  | unsubscribe p =>
    simp only [prog, Prog.holdsAfter]
    split_ifs <;> cases l <;> rfl
  | broadcast n => cases l <;> rfl

end ManagerOp

end AmbientFs
