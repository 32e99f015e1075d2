import AmbientFs.Gateway
import AmbientFs.Lib.Run
import AmbientFs.Lib.Window

/-!
# What the gateway buffers

The buffer of a project is a window on the events that are buffered for it. What is buffered for
other projects, whose buffers fill and overflow on their own, makes no difference.
-/

namespace AmbientFs

namespace GatewayServer

/-- The project and the event of a call. -/
abbrev BufferCall := String × FileEventMessage

def bufferCall (g : GatewayServer) (call : BufferCall) : GatewayServer :=
  g.bufferEvent call.1 call.2

/-- The events buffered for a project, in the order they arrive. -/
def bufferedFor (p : String) (calls : List BufferCall) : List FileEventMessage :=
  (calls.filter (·.1 = p)).map Prod.snd

theorem getBufferedEvents_bufferCall (g : GatewayServer) (call : BufferCall) (p : String) :
    (g.bufferCall call).getBufferedEvents p =
      if call.1 = p then Window.push maxBufferSize (g.getBufferedEvents p) call.2
      else g.getBufferedEvents p := by
  unfold bufferCall bufferEvent getBufferedEvents
  split_ifs with hp
  · subst hp
    exact Function.update_self ..
  · exact Function.update_of_ne (Ne.symm hp) ..

/-- Of the calls a project's buffer sees its own. -/
theorem getBufferedEvents_after (g : GatewayServer) (calls : List BufferCall) (p : String) :
    (Run.after bufferCall g calls).getBufferedEvents p =
      (bufferedFor p calls).foldl (Window.push maxBufferSize) (g.getBufferedEvents p) := by
  induction calls generalizing g with
  | nil => rfl
  | cons call calls ih =>
    rw [Run.after_cons, ih, getBufferedEvents_bufferCall]
    unfold bufferedFor
    by_cases hp : call.1 = p
    · simp [hp]
    · simp [hp]

/-- After any calls the last 3000 of the events buffered for a project are there. -/
theorem buffer_window (calls : List BufferCall) (p : String) :
    (Run.after bufferCall new calls).getBufferedEvents p =
      (bufferedFor p calls).drop
        ((bufferedFor p calls).length - min (bufferedFor p calls).length 3000) := by
  have hwindow : (bufferedFor p calls).foldl (Window.push maxBufferSize) [] =
      (bufferedFor p calls).rtake maxBufferSize := Window.foldl_push (by decide) _
  have hsize : ∀ n, n - maxBufferSize = n - min n 3000 := by
    intro n
    unfold maxBufferSize
    omega
  rw [getBufferedEvents_after, ← hsize]
  exact hwindow

end GatewayServer

end AmbientFs
