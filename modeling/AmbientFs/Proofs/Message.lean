import AmbientFs.Message

/-!
# Events to messages and back

An event comes back as it was but for the part of its time below a second, for which a message has
no room. A message that is accepted comes back as it was but for the machine.
-/

namespace AmbientFs

theorem EventType.asStr_of_fromStr {s : String} {t : EventType} (h : fromStr s = .ok t) :
    t.asStr = s := by
  unfold fromStr at h
  split_ifs at h with h1 h2 h3 h4
  all_goals cases h
  · exact h1.symm
  · exact h2.symm
  · exact h3.symm
  · exact h4.symm

theorem Source.asStr_of_fromStr {s : String} {source : Source} (h : fromStr s = .ok source) :
    source.asStr = s := by
  unfold fromStr at h
  split_ifs at h with h1 h2 h3 h4 h5
  all_goals cases h
  · exact h1.symm
  · exact h2.symm
  · exact h3.symm
  · exact h4.symm
  · exact h5.symm

namespace DateTime

theorem timestamp_of_timestampOpt {secs : ℤ} {t : DateTime} (h : timestampOpt secs = some t) :
    t.timestamp = secs := by
  unfold timestampOpt at h
  split_ifs at h
  cases h
  simp only [timestamp, nanosPerSec]
  omega

theorem trunc_eq_self (t : DateTime) : t.trunc = t ↔ t.nanos % nanosPerSec = 0 := by
  constructor
  · intro h
    have hnanos : t.timestamp * nanosPerSec = t.nanos := congrArg nanos h
    simp only [timestamp, nanosPerSec] at *
    omega
  · intro h
    apply DateTime.ext
    simp only [trunc, timestamp, nanosPerSec] at *
    omega

end DateTime

/-- An accepted message is what its event is written as, but for the machine. -/
theorem fileEventToMessage_of_accepted {msg : FileEventMessage} {machineId : String} {e : FileEvent}
    (h : messageToFileEvent msg machineId = some e) :
    fileEventToMessage e = { msg with machineId := machineId } := by
  unfold messageToFileEvent at h
  split at h
  · rename_i eventType source timestamp htype hsource ht
    have htype' := EventType.asStr_of_fromStr htype
    have hsource' := Source.asStr_of_fromStr hsource
    have ht' := DateTime.timestamp_of_timestampOpt ht
    rcases msg with ⟨_, _, _, _, _, _ | sid, _, _ | hash, _ | old⟩ <;> cases h <;>
      simp only [fileEventToMessage, FileEvent.new, FileEvent.withSource, FileEvent.withSourceId,
        FileEvent.withContentHash, FileEvent.withOldPath] at * <;> simp [htype', hsource', ht']
  · cases h

/-- Both ways through the codec: an event keeps all but what is below a second, so it comes back
exactly if its time is a whole second, and an accepted message keeps all but the machine. -/
theorem message_codec :
    (∀ e : FileEvent, messageToFileEvent (fileEventToMessage e) e.machineId =
        some { e with timestamp := e.timestamp.trunc } ∧
      (messageToFileEvent (fileEventToMessage e) e.machineId = some e ↔
        e.timestamp.nanos % nanosPerSec = 0)) ∧
      ∀ (msg : FileEventMessage) (machineId : String), ∀ e ∈ messageToFileEvent msg machineId,
        fileEventToMessage e = { msg with machineId := machineId } := by
  refine ⟨fun e => ⟨messageToFileEvent_fileEventToMessage e e.machineId, ?_⟩,
    fun msg machineId e he => fileEventToMessage_of_accepted he⟩
  rw [messageToFileEvent_fileEventToMessage, Option.some.injEq, ← DateTime.trunc_eq_self]
  constructor
  · exact fun h => congrArg FileEvent.timestamp h
  · intro h
    rw [h]

def halfPast : FileEvent := .new ⟨500000000, by decide⟩ .created "src/a.rs" "app" "m"

theorem halfPast_codec :
    fileEventToMessage { halfPast with timestamp := halfPast.timestamp.trunc, machineId := "n" } =
      { fileEventToMessage halfPast with machineId := "n" } :=
  message_codec.2 (fileEventToMessage halfPast) "n" _
    (messageToFileEvent_fileEventToMessage halfPast "n")

/-- Half a second is lost. -/
theorem halfPast_not_back :
    messageToFileEvent (fileEventToMessage halfPast) halfPast.machineId ≠ some halfPast := by
  intro h
  rw [messageToFileEvent_fileEventToMessage, Option.some.injEq] at h
  exact absurd (congrArg FileEvent.timestamp h) (by decide)

end AmbientFs
