import AmbientFs.Config
import AmbientFs.Lib.Run

/-!
# One machine id

The configuration that processes load is settled once there is a file and no process is about to
write it: whoever loads it from then on gets what the file is read as, and if a process has come to
its end between the opening and the write, nobody gets one. Until then a process can go on with an
id of its own.
-/

namespace AmbientFs

/-- The text of a uuid. -/
def IsUuid (id : String) : Prop :=
  id.length = 36 ∧ id.toList.all fun c => c.isDigit ∨ 'a' ≤ c ∧ c ≤ 'f' ∨ c = '-'

/-- A configuration that has a text is read back from it, an empty file has not the fields of one,
and all uuids have texts of one length. -/
structure Toml.Lawful (toml : Toml) (dataDir : Option PathBuf) : Prop where
  readsBack : ∀ config text, toml.toStringPretty config = some text →
    toml.fromStr text = some config
  empty : toml.fromStr [] = none
  length : ∀ id id' text text', IsUuid id → IsUuid id' →
    toml.toStringPretty (.default dataDir id) = some text →
    toml.toStringPretty (.default dataDir id') = some text' →
    (Utf8.encode text).length = (Utf8.encode text').length

/-- The process is to open the file or to write it. -/
def LoadPoint.Saves : LoadPoint → Prop
  | opening _ | writing .. => True
  | _ => False

namespace ConfigFile

variable {toml : Toml} {dataDir : Option PathBuf} {s : ConfigFile} {a : LoadAction} {n : ℕ}

/-! ## Steps -/

/-- What the process with the number does, to the file and to its own point. -/
inductive Move (toml : Toml) (dataDir : Option PathBuf) (a : LoadAction) (n : ℕ) :
    Option (List UInt8) → LoadPoint → Option (List UInt8) → LoadPoint → Prop
  | found (content) : Move toml dataDir a n (some content) .looking (some content) .reading
  | missing (id) (h : a = .look n id) :
    Move toml dataDir a n none .looking none (.opening (.default dataDir id))
  | read (content) :
    Move toml dataDir a n (some content) .reading (some content) (.returned (parse toml content))
  | unread (content) : Move toml dataDir a n content .reading content (.returned none)
  | opened (content config text) (h : toml.toStringPretty config = some text) :
    Move toml dataDir a n content (.opening config) (some []) (.writing config text)
  | unopened (content config) :
    Move toml dataDir a n content (.opening config) content (.returned none)
  | wrote (content config text) : Move toml dataDir a n content (.writing config text)
    (content.map fun old => Utf8.encode text ++ old.drop (Utf8.encode text).length)
    (.returned (some config))
  | unwritten (content config text) :
    Move toml dataDir a n content (.writing config text) content (.returned none)
  | ended (content point) : Move toml dataDir a n content point content .ended

/-- Either nothing happens, or a process begins, or one makes a move. -/
theorem step_cases (toml : Toml) (dataDir : Option PathBuf) (s : ConfigFile) (a : LoadAction) :
    s.step toml dataDir a = s ∨
    s.step toml dataDir a = { s with loads := s.loads ++ [.looking] } ∨
    ∃ n point content' point', s.loads[n]? = some point ∧
      Move toml dataDir a n s.content point content' point' ∧
      s.step toml dataDir a = ⟨content', s.loads.set n point'⟩ := by
  obtain ⟨content, loads⟩ := s
  cases a with
  | begin => exact .inr (.inl rfl)
  | look n id =>
    simp only [step, look]
    split
    · rename_i found hn
      exact .inr (.inr ⟨n, _, _, _, hn, .found found, rfl⟩)
    · rename_i hn
      exact .inr (.inr ⟨n, _, _, _, hn, .missing id rfl, rfl⟩)
    · exact .inl rfl
  | read n ok =>
    simp only [step, read]
    split
    · rename_i found hn
      cases ok with
      | true => exact .inr (.inr ⟨n, _, _, _, hn, .read found, rfl⟩)
      | false => exact .inr (.inr ⟨n, _, _, _, hn, .unread _, rfl⟩)
    · rename_i hn
      exact .inr (.inr ⟨n, _, _, _, hn, .unread _, rfl⟩)
    · exact .inl rfl
  | openFile n ok =>
    simp only [step, openFile]
    split
    · rename_i config hn
      split
      · rename_i text htext
        exact .inr (.inr ⟨n, _, _, _, hn, .opened _ config text htext, rfl⟩)
      · exact .inr (.inr ⟨n, _, _, _, hn, .unopened _ config, rfl⟩)
    · exact .inl rfl
  | write n ok =>
    simp only [step, write]
    split
    · rename_i config text hn
      split_ifs
      · exact .inr (.inr ⟨n, _, _, _, hn, .wrote _ config text, rfl⟩)
      · exact .inr (.inr ⟨n, _, _, _, hn, .unwritten _ config text, rfl⟩)
    · exact .inl rfl
  | exit n =>
    simp only [step, exit]
    split
    · exact .inl rfl
    · exact .inl rfl
    · rename_i point _ hn
      exact .inr (.inr ⟨n, _, _, _, hn, .ended _ point, rfl⟩)

/-- Where a process is after a step. -/
theorem point_cases {point : LoadPoint} (h : (s.step toml dataDir a).loads[n]? = some point) :
    s.loads[n]? = some point ∨ point = .looking ∨
      ∃ before content', s.loads[n]? = some before ∧
        Move toml dataDir a n s.content before content' point := by
  rcases step_cases toml dataDir s a with hs | hs | ⟨m, before, content', point', hm,
    hmove, hs⟩
  · rw [hs] at h
    exact .inl h
  · rw [hs, List.getElem?_append] at h
    split_ifs at h
    · exact .inl h
    · exact .inr (.inl (List.mem_singleton.1 (List.mem_of_getElem? h)))
  · rw [hs] at h
    by_cases hmn : m = n
    · subst hmn
      rw [List.getElem?_set_self (List.getElem?_eq_some_iff.1 hm).1] at h
      exact .inr (.inr ⟨before, content', hm, Option.some.inj h ▸ hmove⟩)
    · rw [List.getElem?_set_ne hmn] at h
      exact .inl h

theorem content_cases (toml : Toml) (dataDir : Option PathBuf) (s : ConfigFile) (a : LoadAction) :
    (s.step toml dataDir a).content = s.content ∨ ∃ n before after, s.loads[n]? = some before ∧
      Move toml dataDir a n s.content before (s.step toml dataDir a).content after := by
  rcases step_cases toml dataDir s a with hs | hs | ⟨n, before, content', after, hn, hmove, hs⟩
  · exact .inl (by rw [hs])
  · exact .inl (by rw [hs])
  · exact .inr ⟨n, before, after, hn, by rwa [hs]⟩

/-- What holds of a load that begins, and is kept by every move, holds of all loads. -/
theorem points_step {P : LoadPoint → Prop} (h : ∀ point ∈ s.loads, P point) (hlooking : P .looking)
    (hmove : ∀ n before content' after, s.loads[n]? = some before → P before →
      Move toml dataDir a n s.content before content' after → P after) :
    ∀ point ∈ (s.step toml dataDir a).loads, P point := by
  intro point hpoint
  obtain ⟨n, hn⟩ := List.mem_iff_getElem?.1 hpoint
  rcases point_cases hn with hsame | rfl | ⟨before, content', hbefore, hm⟩
  · exact h point (List.mem_of_getElem? hsame)
  · exact hlooking
  · exact hmove n before content' point hbefore (h before (List.mem_of_getElem? hbefore)) hm

/-! ## Where a configuration comes from -/

/-- The default of a process that was given the id. -/
def Made (dataDir : Option PathBuf) (ids : String → Prop) (config : DaemonConfig) : Prop :=
  ∃ id, ids id ∧ config = .default dataDir id

/-- What is in the file, if it was made in the run. -/
def Sourced (toml : Toml) (dataDir : Option PathBuf) (ids : String → Prop)
    (content : List UInt8) : Prop :=
  content = [] ∨ ∃ config text, Made dataDir ids config ∧ toml.toStringPretty config = some text ∧
    content = Utf8.encode text

/-- What a process does next is about what was made in the run. -/
def PointSourced (toml : Toml) (dataDir : Option PathBuf) (ids : String → Prop) :
    LoadPoint → Prop
  | .opening config => Made dataDir ids config
  | .writing config text => Made dataDir ids config ∧ toml.toStringPretty config = some text
  | .returned result => ∀ config ∈ result, Made dataDir ids config
  | _ => True

structure Inv (toml : Toml) (dataDir : Option PathBuf) (ids : String → Prop)
    (s : ConfigFile) : Prop where
  content : ∀ content ∈ s.content, Sourced toml dataDir ids content
  points : ∀ point ∈ s.loads, PointSourced toml dataDir ids point

variable {ids : String → Prop} {content content' : Option (List UInt8)} {point point' : LoadPoint}
  {bytes : List UInt8}

theorem parse_encode {config : DaemonConfig} {text : List Char} (hlaw : toml.Lawful dataDir)
    (htext : toml.toStringPretty config = some text) :
    parse toml (Utf8.encode text) = some config := by
  rw [ConfigFile.parse, Utf8.decode?_eq_some.2 rfl, Option.bind_some]
  exact hlaw.readsBack config text htext

theorem parse_nil (hlaw : toml.Lawful dataDir) : parse toml [] = none := by
  rw [parse, Utf8.decode?_eq_some.2 Utf8.encode_nil.symm, Option.bind_some]
  exact hlaw.empty

theorem Sourced.parse {bytes : List UInt8} (h : Sourced toml dataDir ids bytes)
    (hlaw : toml.Lawful dataDir) :
    ∀ config ∈ ConfigFile.parse toml bytes, Made dataDir ids config := by
  rcases h with rfl | ⟨config, text, hmade, htext, rfl⟩
  · simp [parse_nil hlaw]
  · simpa [parse_encode hlaw htext] using hmade

/-- As all texts that are written have one length, what is written last is all there is. -/
theorem Sourced.overwrite {old : List UInt8} {config : DaemonConfig} {text : List Char}
    (h : Sourced toml dataDir ids old) (hlaw : toml.Lawful dataDir)
    (hids : ∀ id, ids id → IsUuid id)
    (hmade : Made dataDir ids config) (htext : toml.toStringPretty config = some text) :
    Utf8.encode text ++ old.drop (Utf8.encode text).length = Utf8.encode text := by
  rcases h with rfl | ⟨config', text', ⟨id', hid', rfl⟩, htext', rfl⟩
  · simp
  · obtain ⟨id, hid, rfl⟩ := hmade
    rw [hlaw.length id id' text text' (hids id hid) (hids id' hid') htext htext', List.drop_length,
      List.append_nil]

/-- The process finds no file, and makes a default with the id. -/
def Misses (s : ConfigFile) (id : String) (a : LoadAction) : Prop :=
  ∃ n, a = .look n id ∧ s.loads[n]? = some .looking ∧ s.content = none

theorem Move.sourced (hmove : Move toml dataDir a n content point content' point')
    (hlaw : toml.Lawful dataDir) (hids : ∀ id, ids id → IsUuid id)
    (ha : ∀ id, a = .look n id → point = .looking → content = none → ids id)
    (hcontent : ∀ bytes ∈ content, Sourced toml dataDir ids bytes)
    (hpoint : PointSourced toml dataDir ids point) :
    (∀ bytes ∈ content', Sourced toml dataDir ids bytes) ∧
      PointSourced toml dataDir ids point' := by
  cases hmove with
  | found bytes => exact ⟨hcontent, trivial⟩
  | missing id h => exact ⟨hcontent, id, ha id h rfl rfl, rfl⟩
  | read bytes => exact ⟨hcontent, (hcontent bytes rfl).parse hlaw⟩
  | unread => exact ⟨hcontent, by simp [PointSourced]⟩
  | opened _ config text htext =>
    exact ⟨by simp [Sourced], hpoint, htext⟩
  | unopened => exact ⟨hcontent, by simp [PointSourced]⟩
  | wrote _ config text =>
    obtain ⟨hmade, htext⟩ := hpoint
    refine ⟨fun bytes hbytes => ?_, by simpa [PointSourced] using hmade⟩
    obtain ⟨old, hold, rfl⟩ := Option.map_eq_some_iff.1 hbytes
    rw [(hcontent old hold).overwrite hlaw hids hmade htext]
    exact .inr ⟨config, text, hmade, htext, rfl⟩
  | unwritten => exact ⟨hcontent, by simp [PointSourced]⟩
  | ended => exact ⟨hcontent, trivial⟩

theorem inv_step (h : Inv toml dataDir ids s) (hlaw : toml.Lawful dataDir)
    (hids : ∀ id, ids id → IsUuid id) (ha : ∀ id, s.Misses id a → ids id) :
    Inv toml dataDir ids (s.step toml dataDir a) where
  content := by
    rcases content_cases toml dataDir s a with hsame | ⟨n, before, after, hbefore, hmove⟩
    · rw [hsame]
      exact h.content
    · exact (hmove.sourced hlaw hids (fun id hlook hpoint hnone =>
        ha id ⟨n, hlook, hpoint ▸ hbefore, hnone⟩) h.content
        (h.points before (List.mem_of_getElem? hbefore))).1
  points := points_step h.points trivial fun n before content' after hbefore hsourced hmove =>
    (hmove.sourced hlaw hids (fun id hlook hpoint hnone =>
      ha id ⟨n, hlook, hpoint ▸ hbefore, hnone⟩) h.content hsourced).2

/-- The ids of the processes of a run that find no file. -/
def Given (toml : Toml) (dataDir : Option PathBuf) (s : ConfigFile) (xs : List LoadAction)
    (id : String) : Prop :=
  ∃ pre a, pre ++ [a] <+: xs ∧ (Run.after (step toml dataDir) s pre).Misses id a

theorem inv_after (hlaw : toml.Lawful dataDir) (xs : List LoadAction)
    (huuid : ∀ id, Given toml dataDir (new none) xs id → IsUuid id) :
    Inv toml dataDir (Given toml dataDir (new none) xs)
      (Run.after (step toml dataDir) (new none) xs) := by
  have hinv : ∀ ys, ys <+: xs → Inv toml dataDir (Given toml dataDir (new none) xs)
      (Run.after (step toml dataDir) (new none) ys) := by
    intro ys hys
    induction ys using List.reverseRecOn with
    | nil => exact ⟨by simp [new], by simp [new]⟩
    | append_singleton ys x ih =>
      rw [Run.after_snoc]
      exact inv_step (ih ((List.prefix_append ys [x]).trans hys)) hlaw huuid
        fun id hmisses => ⟨ys, x, hys, hmisses⟩
  exact hinv xs List.prefix_rfl

theorem Sourced.parse_eq_none (h : Sourced toml dataDir ids bytes) (hlaw : toml.Lawful dataDir) :
    ConfigFile.parse toml bytes = none ↔ bytes = [] := by
  constructor
  · intro hnone
    rcases h with rfl | ⟨config, text, -, htext, rfl⟩
    · rfl
    · simp [parse_encode hlaw htext] at hnone
  · rintro rfl
    exact parse_nil hlaw

/-! ## A settled file -/

/-- There is a file, and nobody is about to write it. -/
structure Settled (s : ConfigFile) (bytes : List UInt8) : Prop where
  content : s.content = some bytes
  quiet : ∀ point ∈ s.loads, ¬ point.Saves

theorem Move.settled (hmove : Move toml dataDir a n (some bytes) point content' point')
    (h : ¬ point.Saves) : content' = some bytes ∧ ¬ point'.Saves := by
  cases hmove <;> simp_all [LoadPoint.Saves]

theorem Settled.step (h : Settled s bytes) (toml : Toml) (dataDir : Option PathBuf)
    (a : LoadAction) : Settled (s.step toml dataDir a) bytes where
  content := by
    rcases content_cases toml dataDir s a with hsame | ⟨n, before, after, hbefore, hmove⟩
    · exact hsame.trans h.content
    · rw [h.content] at hmove
      exact (hmove.settled (h.quiet before (List.mem_of_getElem? hbefore))).1
  quiet := points_step h.quiet id fun n before content' after _ hquiet hmove =>
    ((h.content ▸ hmove).settled hquiet).2

theorem Settled.after (h : Settled s bytes) (toml : Toml) (dataDir : Option PathBuf)
    (xs : List LoadAction) : Settled (Run.after (ConfigFile.step toml dataDir) s xs) bytes := by
  induction xs using List.reverseRecOn with
  | nil => exact h
  | append_singleton xs x ih =>
    rw [Run.after_snoc]
    exact ih.step toml dataDir x

/-- What a load comes to return when the file is settled. -/
theorem Settled.returned_step {result : Option DaemonConfig} (h : Settled s bytes)
    (hn : (s.step toml dataDir a).loads[n]? = some (.returned result)) :
    s.loads[n]? = some (.returned result) ∨ result = ConfigFile.parse toml bytes ∨
      result = none := by
  rcases point_cases hn with hsame | hlooking | ⟨before, content', hbefore, hmove⟩
  · exact .inl hsame
  · cases hlooking
  · rw [h.content] at hmove
    have hquiet := h.quiet before (List.mem_of_getElem? hbefore)
    cases hmove with
    | read => exact .inr (.inl rfl)
    | unread => exact .inr (.inr rfl)
    | unopened => exact .inr (.inr rfl)
    | wrote => exact absurd trivial hquiet
    | unwritten => exact .inr (.inr rfl)

theorem Settled.returned_after {result : Option DaemonConfig} (h : Settled s bytes)
    (xs : List LoadAction)
    (hn : (Run.after (ConfigFile.step toml dataDir) s xs).loads[n]? = some (.returned result)) :
    s.loads[n]? = some (.returned result) ∨ result = ConfigFile.parse toml bytes ∨
      result = none := by
  induction xs using List.reverseRecOn with
  | nil => exact .inl hn
  | append_singleton xs x ih =>
    rw [Run.after_snoc] at hn
    rcases (h.after toml dataDir xs).returned_step hn with hsame | hreturned
    · exact ih hsame
    · exact .inr hreturned

/-- A load that has yet to look reads the file. -/
theorem Settled.load (h : Settled s bytes) (id : String) (hn : s.loads[n]? = some .looking) :
    ((s.step toml dataDir (.look n id)).step toml dataDir (.read n true)).loads[n]? =
      some (.returned (ConfigFile.parse toml bytes)) := by
  have hlook : s.step toml dataDir (.look n id) = s.setPoint n .reading := by
    simp only [ConfigFile.step, look, hn, h.content]
  have hlt := (List.getElem?_eq_some_iff.1 hn).1
  have hreading : (s.setPoint n .reading).loads[n]? = some .reading := List.getElem?_set_self hlt
  have hcontent : (s.setPoint n .reading).content = some bytes := h.content
  rw [hlook]
  simp only [ConfigFile.step, read, hreading, hcontent, if_true]
  exact List.getElem?_set_self (by simpa [setPoint] using hlt)

/-- **If there was no file, what processes load is a default that one of them has made, which found
none. Where there is a file that nobody is about to write, it stays, and those that load later all
get what it is read as, which is no configuration only if it is empty.** -/
theorem machine_id_settles (toml : Toml) (dataDir : Option PathBuf) (hlaw : toml.Lawful dataDir)
    (start : Option (List UInt8)) (xs : List LoadAction)
    (huuid : ∀ id, Given toml dataDir (new start) xs id → IsUuid id) :
    let s := Run.after (step toml dataDir) (new start) xs
    (start = none → ∀ (n : ℕ) config, s.loads[n]? = some (.returned (some config)) →
      Made dataDir (Given toml dataDir (new start) xs) config) ∧
    (∀ bytes ∈ start, s.Settled bytes) ∧
    ∀ bytes, s.Settled bytes →
      (start = none → (parse toml bytes = none ↔ bytes = []) ∧
        ∀ config ∈ parse toml bytes, Made dataDir (Given toml dataDir (new start) xs) config) ∧
      ∀ ys : List LoadAction, (Run.after (step toml dataDir) s ys).Settled bytes ∧ ∀ n : ℕ,
        (∀ result,
          (Run.after (step toml dataDir) s ys).loads[n]? = some (.returned result) →
            s.loads[n]? = some (.returned result) ∨ result = parse toml bytes ∨ result = none) ∧
        ∀ id, (Run.after (step toml dataDir) s ys).loads[n]? = some .looking →
          (Run.after (step toml dataDir) s (ys ++ [.look n id, .read n true])).loads[n]? =
            some (.returned (parse toml bytes)) := by
  intro s
  have hinv : start = none → Inv toml dataDir (Given toml dataDir (new start) xs) s := by
    rintro rfl
    exact inv_after hlaw xs huuid
  refine ⟨fun hnone n config hn => ?_, fun bytes hbytes => ?_, fun bytes hsettled =>
    ⟨fun hnone => ?_, fun ys => ⟨hsettled.after toml dataDir ys, fun n =>
      ⟨fun result hn => ?_, fun id hn => ?_⟩⟩⟩⟩
  · exact (hinv hnone).points _ (List.mem_of_getElem? hn) config rfl
  · obtain rfl : start = some bytes := hbytes
    have hnew : (new (some bytes)).Settled bytes := ⟨rfl, by simp [new]⟩
    exact hnew.after toml dataDir xs
  · have hsourced := (hinv hnone).content bytes hsettled.content
    exact ⟨hsourced.parse_eq_none hlaw, hsourced.parse hlaw⟩
  · exact hsettled.returned_after ys hn
  · rw [Run.after_append, Run.after_cons, Run.after_cons, Run.after_nil]
    exact (hsettled.after toml dataDir ys).load id hn

/-! ## Two processes that find no file -/

def firstId : String := "6fa459ea-ee8a-4ca4-894e-db77e160355e"

def secondId : String := "16fd2706-8baf-433b-82eb-8c7fada847da"

def configText (id : String) : List Char :=
  ("machine_id = \"" ++ id ++ "\"\ndb_path = \"/tmp/ambient-fs/events.db\"\n" ++
    "socket_path = \"/tmp/ambient-fs.sock\"\ndebounce_ms = 100\n" ++
    "max_file_size_bytes = 10485760\nlog_level = \"info\"\n").toList

/-- What `toml` makes of the two defaults. -/
def twoTexts : Toml where
  toStringPretty config :=
    if config = .default none firstId then some (configText firstId)
    else if config = .default none secondId then some (configText secondId)
    else none
  fromStr text :=
    if text = configText firstId then some (.default none firstId)
    else if text = configText secondId then some (.default none secondId)
    else none

theorem configText_ne : configText secondId ≠ configText firstId := by decide +kernel

theorem twoTexts_cases {config : DaemonConfig} {text : List Char}
    (h : twoTexts.toStringPretty config = some text) :
    config = .default none firstId ∧ text = configText firstId ∨
      config = .default none secondId ∧ text = configText secondId := by
  simp only [twoTexts] at h
  split_ifs at h with h₁ h₂
  · exact .inl ⟨h₁, (Option.some.inj h).symm⟩
  · exact .inr ⟨h₂, (Option.some.inj h).symm⟩

theorem lawful_twoTexts : twoTexts.Lawful none where
  readsBack config text h := by
    rcases twoTexts_cases h with ⟨hconfig, htext⟩ | ⟨hconfig, htext⟩ <;> rw [hconfig, htext]
    · simp only [twoTexts, if_true]
    · simp only [twoTexts, configText_ne, if_true, if_false]
  empty := by decide +kernel
  length id id' text text' _ _ h h' := by
    have hlength : (Utf8.encode (configText secondId)).length =
        (Utf8.encode (configText firstId)).length := by decide +kernel
    rcases twoTexts_cases h with ⟨-, htext⟩ | ⟨-, htext⟩ <;>
      rcases twoTexts_cases h' with ⟨-, htext'⟩ | ⟨-, htext'⟩ <;> rw [htext, htext']
    · exact hlength.symm
    · exact hlength

/-- Both look before one opens the file. -/
def race : List LoadAction :=
  [.begin, .begin, .look 0 firstId, .look 1 secondId, .openFile 0 true, .write 0 true,
    .openFile 1 true, .write 1 true]

theorem settled_race : (Run.after (step twoTexts none) (new none) race).Settled
    (Utf8.encode (configText secondId)) where
  content := by decide +kernel
  quiet := by
    have hloads : (Run.after (step twoTexts none) (new none) race).loads =
        [.returned (some (.default none firstId)), .returned (some (.default none secondId))] := by
      decide +kernel
    rw [hloads]
    simp [LoadPoint.Saves]

theorem isUuid_race : ∀ id, Given twoTexts none (new none) race id → IsUuid id := by
  rintro id ⟨pre, _, hpre, n, rfl, -⟩
  have hn : LoadAction.look n id ∈ race := hpre.subset (by simp)
  obtain ⟨-, rfl⟩ | ⟨-, rfl⟩ : n = 0 ∧ id = firstId ∨ n = 1 ∧ id = secondId := by
    simpa [race] using hn
  · exact ⟨by decide +kernel, by decide +kernel⟩
  · exact ⟨by decide +kernel, by decide +kernel⟩

theorem machine_id_settles_race :
    (Run.after (step twoTexts none) (new none) race).loads[0]? =
      some (.returned (some (.default none firstId))) ∧
    (Run.after (step twoTexts none) (Run.after (step twoTexts none) (new none) race)
      [.begin]).content = some (Utf8.encode (configText secondId)) ∧
    (Run.after (step twoTexts none) (Run.after (step twoTexts none) (new none) race)
      [.begin, .look 2 firstId, .read 2 true]).loads[2]? =
        some (.returned (some (.default none secondId))) := by
  have hlater := ((machine_id_settles twoTexts none lawful_twoTexts none race isUuid_race).2.2 _
    settled_race).2 [.begin]
  refine ⟨by decide +kernel, hlater.1.content, ?_⟩
  have htext : twoTexts.toStringPretty (.default none secondId) = some (configText secondId) := by
    simp only [twoTexts]
    decide +kernel
  rw [parse_encode lawful_twoTexts htext] at hlater
  exact (hlater.2 2).2 firstId (by decide +kernel)

end ConfigFile

end AmbientFs
