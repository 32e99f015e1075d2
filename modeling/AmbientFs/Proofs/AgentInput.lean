import AmbientFs.AgentInput
import AmbientFs.Proofs.Codec
import AmbientFs.Proofs.ReplyRule

/-!
# The two ways an activity comes in

A request and a line read an activity alike, up to the rounding of its confidence. Only a line must
name its agent, its action and its file by texts that are not empty, so the two accept the same
objects but for those.
-/

namespace AmbientFs

open Json.Value (asStr asBool asNumber asOption bind_rel asOption_rel lookup_rel mapM_rel)

/-- A number that is written and read again: a float may be rounded. -/
def JsonNumber.Near : JsonNumber → JsonNumber → Prop
  | .float _, .float _ => True
  | m, n => m = n

namespace AgentActivity

variable {v v' : JsonValue}

/-- The numbers of the lines. -/
def readLines (v : JsonValue) : Option (List UInt32) :=
  match v with
  | .array items => items.mapM JsonValue.asU32
  | _ => none

theorem asI64_near (m n : JsonNumber) (h : m.Near n) : m.asI64 = n.asI64 := by
  cases m <;> cases n <;> first | rfl | exact congrArg JsonNumber.asI64 h

theorem asU64_near (m n : JsonNumber) (h : m.Near n) : m.asU64 = n.asU64 := by
  cases m <;> cases n <;> first | rfl | exact congrArg JsonNumber.asU64 h

theorem asU32_rel (v v' : JsonValue) (h : v.Rel JsonNumber.Near v') : v.asU32 = v'.asU32 :=
  congrArg (fun o => Option.bind o _) (h.asNumber_bind asU64_near)

/-- The confidence is there or not alike. -/
theorem confidence_rel {o o' : Option JsonValue}
    (h : Option.Rel (Json.Value.Rel JsonNumber.Near) o o') :
    Option.Rel (fun _ _ => True) (asOption (fun v => v.asNumber.map JsonNumber.toRat) o)
      (asOption (fun v => v.asNumber.map JsonNumber.toRat) o') := by
  cases h with
  | none => exact .some trivial
  | some h =>
    cases h with
    | null | number => exact .some trivial
    | bool | string | array | object => exact .none

theorem readLines_rel (v v' : JsonValue) (h : v.Rel JsonNumber.Near v') :
    readLines v = readLines v' := by
  cases h with
  | array h => exact mapM_rel asU32_rel h
  | null | bool | number | string | object => rfl

section Bind

variable {α β γ : Type} {r : α → β → Prop} {s : γ → γ → Prop}

theorem rel_bind {o : Option α} {o' : Option β} {f : α → Option γ} {g : β → Option γ}
    (h : Option.Rel r o o') (hfg : ∀ a b, r a b → Option.Rel s (f a) (g b)) :
    Option.Rel s (o.bind f) (o'.bind g) := by
  cases h with
  | none => exact .none
  | some h => exact hfg _ _ h

theorem rel_bind_eq {o o' : Option α} {f g : α → Option γ} (h : o = o')
    (hfg : ∀ a, Option.Rel s (f a) (g a)) : Option.Rel s (o.bind f) (o'.bind g) := by
  subst h
  cases o with
  | none => exact .none
  | some a => exact hfg a

end Bind

/-- Activities that are read of related objects are the same. -/
theorem fromValue_rel {members members' : List (String × JsonValue)}
    (hkeys : members.map Prod.fst = members'.map Prod.fst)
    (h : List.Forall₂ (Json.Value.Rel JsonNumber.Near) (members.map Prod.snd)
      (members'.map Prod.snd)) :
    Option.Rel Same (fromValue (.object members)) (fromValue (.object members')) := by
  have hfield := fun name => lookup_rel (r := JsonNumber.Near) name hkeys h
  have hstr : ∀ name, (members.lookup name).bind asStr = (members'.lookup name).bind asStr :=
    fun name => bind_rel (fun _ _ hv => hv.asStr_eq) (hfield name)
  have hopt : ∀ name,
      asOption asStr (members.lookup name) = asOption asStr (members'.lookup name) :=
    fun name => asOption_rel (fun _ _ hv => hv.asStr_eq) (hfield name)
  have hts : ((members.lookup "ts").bind asNumber).bind JsonNumber.asI64 =
      ((members'.lookup "ts").bind asNumber).bind JsonNumber.asI64 := by
    rw [Option.bind_assoc, Option.bind_assoc]
    exact bind_rel (fun _ _ hv => hv.asNumber_bind asI64_near) (hfield "ts")
  refine rel_bind_eq hts fun ts => ?_
  refine rel_bind_eq (hstr "agent") fun agent => ?_
  refine rel_bind_eq (hstr "action") fun action => ?_
  refine rel_bind_eq (hstr "file") fun file => ?_
  refine rel_bind_eq (hopt "project") fun project => ?_
  refine rel_bind_eq (hopt "tool") fun tool => ?_
  refine rel_bind_eq (hopt "session") fun session => ?_
  refine rel_bind_eq (hopt "intent") fun intent => ?_
  refine rel_bind_eq (asOption_rel readLines_rel (hfield "lines")) fun lines => ?_
  refine rel_bind (confidence_rel (hfield "confidence")) fun c c' _ => ?_
  refine rel_bind_eq (asOption_rel (fun _ _ hv => hv.asBool_eq) (hfield "done")) fun done => ?_
  exact .some rfl

/-- An object, which has each key once, is read of its text as it is of its value. -/
theorem fromText_object {members : List (String × JsonValue)}
    (h : (members.map Prod.fst).Nodup) :
    fromText (.object members) = fromValue (.object members) := by
  unfold fromText
  refine if_neg ?_
  rintro ⟨name, -, hname⟩
  exact absurd (List.nodup_iff_count_le_one.1 h name) (by omega)

/-- None of the three texts that a line must have is empty. -/
def Named (a : AgentActivity) : Prop := a.agent ≠ "" ∧ a.action ≠ "" ∧ a.file ≠ ""

theorem Same.named {a b : AgentActivity} (h : a.Same b) : a.Named ↔ b.Named := by
  unfold Same at h
  rw [mk.injEq] at h
  unfold Named
  rw [h.2.1, h.2.2.1, h.2.2.2.1]

end AgentActivity

/-- How an object is written, and read again. -/
structure SerdeJson.Rereads (serde : SerdeJson) (members : List (String × JsonValue)) : Prop where
  first : (serde.toStr (.object members)).head? = some '\x7b'
  last : (serde.toStr (.object members)).getLast? = some '\x7d'
  read : ∃ v, serde.fromStr (serde.toStr (.object members)) = some v ∧
    Json.Value.Rel JsonNumber.Near (.object members) v

namespace Rpc

/-- The activity that is read of the parameters of the request is recorded. -/
def Records (o : Outside) (s : ServerState) (req : Request) (a : AgentActivity) : Prop :=
  (req.extractObjectParams.bind fun members => AgentActivity.fromValue (.object members)) = some a ∧
    handleReportAgentActivity o s req =
      ({ s with agentTracker := s.agentTracker.updateFromActivity a o.now },
        .ofResult req.id (.object [("recorded", .bool true)]))

/-- The request is recorded exactly if the line is read, and then they are the same activity. -/
def AcceptedAlike (o : Outside) (s : ServerState) (req : Request) (serde : SerdeJson)
    (line : List Char) : Prop :=
  ((∃ a, Records o s req a) ↔ ∃ b, AgentTracker.processLine serde line = some b) ∧
    ∀ a b, Records o s req a → AgentTracker.processLine serde line = some b → a.Same b

variable {o : Outside} {s : ServerState} {req : Request} {members : List (String × JsonValue)}
  {serde : SerdeJson}

theorem records_iff (hreq : req.params = some (.object members)) (a : AgentActivity) :
    Records o s req a ↔ AgentActivity.fromValue (.object members) = some a := by
  have hparams : req.extractObjectParams = some members := by
    rw [Request.extractObjectParams, hreq]
  unfold Records
  rw [hparams, Option.bind_some]
  refine and_iff_left_of_imp fun ha => ?_
  unfold handleReportAgentActivity
  simp only [hparams, ha]

theorem processLine_object (hkeys : (members.map Prod.fst).Nodup)
    (hserde : serde.Rereads members) :
    ∃ activity, Option.Rel AgentActivity.Same (AgentActivity.fromValue (.object members)) activity ∧
      ∀ b, AgentTracker.processLine serde (serde.toStr (.object members)) = some b ↔
        activity = some b ∧ b.Named := by
  obtain ⟨v, hv, hrel⟩ := hserde.read
  cases hrel with
  | @object _ members' hk hvalues =>
    refine ⟨_, AgentActivity.fromValue_rel hk hvalues, fun b => ?_⟩
    have hne : serde.toStr (.object members) ≠ [] :=
      List.isSome_head?.1 (by rw [hserde.first]; rfl)
    have htrim : Lines.trim Lines.whiteSpace (serde.toStr (.object members)) =
        serde.toStr (.object members) :=
      Lines.trim_of_ends hserde.first hserde.last (by decide) (by decide)
    unfold AgentTracker.processLine
    simp only [htrim, if_neg hne, hv, Option.bind_some, AgentActivity.fromText_object (hk ▸ hkeys)]
    rcases AgentActivity.fromValue (.object members') with _ | a
    · simp
    · by_cases ha : a.agent = "" ∨ a.action = "" ∨ a.file = ""
      · simp only [if_pos ha, reduceCtorEq, Option.some.injEq, false_iff]
        rintro ⟨rfl, hagent, haction, hfile⟩
        rcases ha with ha | ha | ha
        · exact hagent ha
        · exact haction ha
        · exact hfile ha
      · simp only [if_neg ha]
        refine ⟨fun hb => ⟨hb, ?_⟩, fun hb => hb.1⟩
        obtain rfl := Option.some.inj hb
        rw [not_or, not_or] at ha
        exact ha

/-- Both ways accept an object alike exactly if it is no activity with an empty name. -/
theorem acceptedAlike_iff (o : Outside) (s : ServerState) (req : Request)
    (members : List (String × JsonValue)) (serde : SerdeJson)
    (hreq : req.params = some (.object members)) (hkeys : (members.map Prod.fst).Nodup)
    (hserde : serde.Rereads members) :
    AcceptedAlike o s req serde (serde.toStr (.object members)) ↔
      ∀ a, AgentActivity.fromValue (.object members) = some a → a.Named := by
  obtain ⟨activity, hrel, hline⟩ := processLine_object hkeys hserde
  unfold AcceptedAlike
  simp only [records_iff hreq, hline]
  generalize AgentActivity.fromValue (.object members) = recorded at hrel
  cases hrel with
  | none => simp
  | @some a b hab =>
    constructor
    · rintro ⟨haccept, -⟩ a' ha'
      obtain rfl := Option.some.inj ha'
      obtain ⟨b', hb', hnamed⟩ := haccept.1 ⟨a, rfl⟩
      obtain rfl := Option.some.inj hb'
      exact hab.named.2 hnamed
    · intro hnamed
      refine ⟨iff_of_true ⟨a, rfl⟩ ⟨b, rfl, hab.named.1 (hnamed a rfl)⟩, ?_⟩
      rintro a' b' ha' ⟨hb', -⟩
      obtain rfl := Option.some.inj ha'
      obtain rfl := Option.some.inj hb'
      exact hab

open Client (textOf)
open ConnectionAudit (idle idleOutside)

/-- An edit that an agent reports. -/
def edit (agent : String) : List (String × JsonValue) :=
  [("action", .string "edit"), ("agent", .string agent), ("file", .string "f.rs"),
    ("ts", .number (.posInt 0))]

def editRequest (agent : String) : Request :=
  ⟨"2.0", "report_agent_activity", some (.object (edit agent)), .number 1⟩

theorem rereads_edit {agent text : String} (hfirst : text.toList.head? = some '\x7b')
    (hlast : text.toList.getLast? = some '\x7d') :
    (textOf text (.object (edit agent))).Rereads (edit agent) where
  first := hfirst
  last := hlast
  read := ⟨.object (edit agent), if_pos rfl, .object rfl
    (.cons (.string _) (.cons (.string _) (.cons (.string _) (.cons (.number rfl) .nil))))⟩

def namedText : String :=
  "\x7b\"action\":\"edit\",\"agent\":\"a\",\"file\":\"f.rs\",\"ts\":0\x7d"

theorem acceptedAlike_named : AcceptedAlike idleOutside idle (editRequest "a")
    (textOf namedText (.object (edit "a")))
    ((textOf namedText (.object (edit "a"))).toStr (.object (edit "a"))) := by
  refine (acceptedAlike_iff idleOutside idle (editRequest "a") (edit "a") _ rfl (by decide)
    (rereads_edit (by decide +kernel) (by decide +kernel))).2 ?_
  rintro a ⟨⟩
  exact ⟨by decide, by decide, by decide⟩

def namelessText : String :=
  "\x7b\"action\":\"edit\",\"agent\":\"\",\"file\":\"f.rs\",\"ts\":0\x7d"

/-- An activity of an agent with an empty name is recorded, and its line is not read. -/
theorem not_acceptedAlike : ¬ ∀ (o : Outside) (s : ServerState) (req : Request)
    (members : List (String × JsonValue)) (serde : SerdeJson),
    req.params = some (.object members) → (members.map Prod.fst).Nodup → serde.Rereads members →
    AcceptedAlike o s req serde (serde.toStr (.object members)) := by
  intro h
  have hserde : (textOf namelessText (.object (edit ""))).Rereads (edit "") :=
    rereads_edit (by decide +kernel) (by decide +kernel)
  have halike := h idleOutside idle (editRequest "") (edit "") _ rfl (by decide) hserde
  obtain ⟨b, hb⟩ := halike.1.1 ⟨_, (records_iff rfl _).2 rfl⟩
  obtain ⟨activity, hrel, hline⟩ := processLine_object (by decide) hserde
  obtain ⟨rfl, hnamed⟩ := (hline b).1 hb
  have hsame : Option.Rel AgentActivity.Same
      (some { ts := 0, agent := "", action := "edit", file := "f.rs" }) (some b) := hrel
  cases hsame with
  | some hab => exact (hab.named.2 hnamed).1 rfl

end Rpc

end AmbientFs
