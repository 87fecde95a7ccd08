import WeftAgent.Guestplane.Dispatcher

/-!
# What the consumers make of the dispatcher's messages

A callback that returns nil has published one message. Whether the consumer of its subject accepts
the message is determined by the request: the empty set of a `StopPod` is valid, an `Exec` is if it
names a container and a command, the set of an `Update` never is, since it lists a container without
an image.
-/

namespace WeftAgent.Guestplane

open WeftAgent.Go WeftAgent.Effect WeftAgent.Pod

/-! ## Subjects -/

theorem subject_ne_subjectOpen (vmID vmID' : GoString) :
    Containers.subject vmID ≠ ExecSession.subjectOpen vmID' := by
  intro h
  -- the subjects differ in the first letter after the common "weft."
  have hletter := congrArg (fun s => s[5]?) h
  rw [Containers.subject, ExecSession.subjectOpen, List.append_assoc,
    List.getElem?_append_left (by decide), List.getElem?_append_left (by decide)] at hletter
  exact absurd hletter (by decide)

theorem subject_kill_ne (vmID : GoString) :
    Containers.subject vmID ++ lit ".kill" ≠ Containers.subject vmID := by
  intro h
  have hlen := congrArg List.length h
  rw [List.length_append] at hlen
  have hkill : (lit ".kill").length = 5 := by decide
  omega

theorem subject_kill_ne_subjectOpen (vmID : GoString) :
    Containers.subject vmID ++ lit ".kill" ≠ ExecSession.subjectOpen vmID := by
  rw [Containers.subject, List.append_assoc]
  exact subject_ne_subjectOpen (vmID ++ lit ".kill") vmID

/-! ## Consumers -/

variable {json : Json} {vmID : GoString}

theorem decodeSet_ok_iff {s : ContainerSet} :
    (∃ s', Containers.decodeSet (.ok s) = .ok s') ↔ s.validate = none := by
  unfold Containers.decodeSet
  cases hv : s.validate with
  | some e => simp [hv]
  | none => simp [hv]

theorem decodeRequest_ok_iff {req : ExecSession.ExecRequest} :
    (∃ req', ExecSession.decodeRequest (.ok req) = .ok req') ↔ req.validate = none := by
  unfold ExecSession.decodeRequest
  cases hv : req.validate with
  | some e => simp [hv]
  | none => simp [hv]

/-- An encoded set on the containers subject is accepted iff it is valid. -/
theorem accepted_set_iff {s : ContainerSet} {data : GoString} (h : json.set.marshal s = .ok data) :
    Accepted json vmID ⟨Containers.subject vmID, data⟩ ↔ s.validate = none := by
  rw [← decodeSet_ok_iff, ← json.set.decodes s data h]
  constructor
  · rintro (⟨-, hs⟩ | ⟨hsubj, -⟩)
    · exact hs
    · exact absurd hsubj (subject_ne_subjectOpen vmID vmID)
  · exact fun hs => .inl ⟨rfl, hs⟩

/-- An encoded request on the open subject is accepted iff it is valid. -/
theorem accepted_exec_iff {req : ExecSession.ExecRequest} {data : GoString}
    (h : json.exec.marshal req = .ok data) :
    Accepted json vmID ⟨ExecSession.subjectOpen vmID, data⟩ ↔ req.validate = none := by
  rw [← decodeRequest_ok_iff, ← json.exec.decodes req data h]
  constructor
  · rintro (⟨hsubj, -⟩ | ⟨-, hreq⟩)
    · exact absurd hsubj.symm (subject_ne_subjectOpen vmID vmID)
    · exact hreq
  · exact fun hreq => .inr ⟨rfl, hreq⟩

theorem not_accepted_kill (data : GoString) :
    ¬Accepted json vmID ⟨Containers.subject vmID ++ lit ".kill", data⟩ := by
  rintro (⟨hsubj, -⟩ | ⟨hsubj, -⟩)
  · exact subject_kill_ne vmID hsubj
  · exact subject_kill_ne_subjectOpen vmID hsubj

/-! ## Payloads -/

/-- A container without an image is refused, whatever its name. -/
theorem validate_updateSet_ne_none (u : UpdateContainer) : (updateSet u).validate ≠ none := by
  intro h
  simp only [updateSet, ContainerSet.validate, containerSetVersion, checkContainers] at h
  by_cases hname : u.containerId = [] <;> simp [checkContainer, hname] at h

theorem validate_execRequest_iff (now : Int) (e : ExecInContainer) :
    (execRequest now e).validate = none ↔ e.containerId ≠ [] ∧ e.command ≠ [] := by
  have hid : (execRequest now e).id ≠ [] := by
    rw [execRequest, lit]
    exact List.append_ne_nil_of_left_ne_nil (by decide) _
  have hkind : (execRequest now e).target.kind = lit "exec" := rfl
  have hshell : lit "exec" ≠ lit "shell" := by decide
  rw [ExecSession.ExecRequest.validate, if_neg hid, hkind, if_neg hshell, if_pos rfl]
  by_cases hc : e.containerId = [] <;> by_cases hcmd : e.command = [] <;>
    simp [execRequest, hc, hcmd]

/-! ## Callbacks -/

/-- The requests whose messages are acceptable. -/
def Consumable : CallbackOp → Prop
  | .stopPod _ => True
  | .kill _ _ => False
  | .exec e => e.containerId ≠ [] ∧ e.command ≠ []
  | .update _ => False

theorem publishPayload_eq_none {S : Type} {h : Handler busSig S} {format : String}
    {marshalled : Except GoError GoString} {subject : GoString} {s : S}
    (hnil : (run h (publishPayload format marshalled subject) s).1 = none) :
    ∃ data, marshalled = .ok data ∧
      trace h (publishPayload format marshalled subject) s = [⟨subject, data⟩] := by
  cases marshalled with
  | error e => cases hnil
  | ok data => exact ⟨data, rfl, rfl⟩

/-- A callback that returns nil has published one message, and the consumer of its subject accepts
the message iff the request is consumable. -/
theorem published_is_accepted_iff (json : Json) (vmID : GoString) (now : Int) {S : Type}
    (bus : Handler busSig S) (s : S) (op : CallbackOp)
    (hnil : (run bus (newGuestplaneDispatcher json vmID now op) s).1 = none) :
    ∃ m, trace bus (newGuestplaneDispatcher json vmID now op) s = [m] ∧
      (Accepted json vmID m ↔ Consumable op) := by
  cases op with
  | stopPod graceSeconds =>
    obtain ⟨data, hdata, htrace⟩ := publishPayload_eq_none hnil
    refine ⟨_, htrace, (accepted_set_iff hdata).trans ?_⟩
    exact iff_of_true (by decide) trivial
  | kill containerID signal =>
    obtain ⟨data, -, htrace⟩ := publishPayload_eq_none hnil
    exact ⟨_, htrace, iff_of_false (not_accepted_kill data) id⟩
  | exec e =>
    obtain ⟨data, hdata, htrace⟩ := publishPayload_eq_none hnil
    exact ⟨_, htrace, (accepted_exec_iff hdata).trans (validate_execRequest_iff now e)⟩
  | update u =>
    obtain ⟨data, hdata, htrace⟩ := publishPayload_eq_none hnil
    refine ⟨_, htrace, (accepted_set_iff hdata).trans ?_⟩
    exact iff_of_false (validate_updateSet_ne_none u) id

deriving instance DecidableEq for ContainerSet, ExecSession.ExecTarget, ExecSession.ExecRequest

deriving instance DecidableEq for KillPayload

/-- `encoding/json` as far as one value and its text are concerned. -/
def Codec.only {α : Type} [DecidableEq α] (v : α) (text : GoString) : Codec α where
  marshal w := if w = v then .ok text else .error (.errorf "unknown value" [])
  unmarshal data := if data = text then .ok v else .error (.errorf "unknown text" [])
  decodes w data h := by
    split_ifs at h with hw
    rw [hw, ← Except.ok.inj h, if_pos rfl]

/-- A bus that takes every message. -/
def openBus : Handler busSig Unit := fun _ _ => (none, ())

def lsInWeb : ExecInContainer := { containerId := lit "web", command := [lit "ls"] }

def sleepInWeb : UpdateContainer := { containerId := lit "web", command := [lit "sleep"] }

def lsInWebText : GoString :=
  lit "\x7b\"id\":\"gplane-7\",\"target\":\x7b\"kind\":\"exec\"," ++
    lit "\"container\":\"web\",\"command\":[\"ls\"]\x7d\x7d"

def sleepInWebText : GoString :=
  lit "\x7b\"version\":1,\"containers\":[\x7b\"name\":\"web\",\"image\":\"\"," ++
    lit "\"command\":[\"sleep\"]\x7d]\x7d"

def sampleJson : Json where
  set := Codec.only (updateSet sleepInWeb) sleepInWebText
  kill := Codec.only ⟨lit "web", lit "SIGTERM"⟩
    (lit "\x7b\"container_id\":\"web\",\"signal\":\"SIGTERM\"\x7d")
  exec := Codec.only (execRequest 7 lsInWeb) lsInWebText

theorem sampleJson_marshal_exec :
    sampleJson.exec.marshal (execRequest 7 lsInWeb) = .ok lsInWebText :=
  if_pos rfl

theorem sampleJson_marshal_update :
    sampleJson.set.marshal (updateSet sleepInWeb) = .ok sleepInWebText :=
  if_pos rfl

theorem lsInWeb_is_accepted :
    ∃ m, trace openBus (newGuestplaneDispatcher sampleJson (lit "vm") 7 (.exec lsInWeb)) () = [m] ∧
      Accepted sampleJson (lit "vm") m := by
  have hnil : (run openBus
      (newGuestplaneDispatcher sampleJson (lit "vm") 7 (.exec lsInWeb)) ()).1 = none := by
    rw [newGuestplaneDispatcher, exec, sampleJson_marshal_exec]
    rfl
  obtain ⟨m, htrace, haccepted⟩ :=
    published_is_accepted_iff sampleJson (lit "vm") 7 openBus () (.exec lsInWeb) hnil
  exact ⟨m, htrace, haccepted.mpr ⟨by decide, by decide⟩⟩

/-- An update is published and reported as a success; the reconciler then refuses the set for the
missing image. -/
theorem sleepInWeb_is_refused :
    run openBus (newGuestplaneDispatcher sampleJson (lit "vm") 7 (.update sleepInWeb)) () =
      (none, ()) ∧
    ∃ m, trace openBus (newGuestplaneDispatcher sampleJson (lit "vm") 7 (.update sleepInWeb)) () =
        [m] ∧
      m.subject = Containers.subject (lit "vm") ∧
      ¬Accepted sampleJson (lit "vm") m ∧
      Containers.handleMessage .listed (sampleJson.set.unmarshal m.data) {} =
        .ret (some (.wrap "containers: invalid set: %w" []
          (.errorf "containers[%d]: image required (got name=%q)" [.int 0, .str (lit "web")])),
          {}) := by
  have hrefused : ¬Accepted sampleJson (lit "vm") ⟨Containers.subject (lit "vm"), sleepInWebText⟩ :=
    (accepted_set_iff sampleJson_marshal_update).not.mpr
    (validate_updateSet_ne_none sleepInWeb)
  rw [newGuestplaneDispatcher, update, sampleJson_marshal_update]
  refine ⟨rfl, ⟨Containers.subject (lit "vm"), sleepInWebText⟩, rfl, rfl, hrefused, ?_⟩
  have hdecodes := sampleJson.set.decodes _ _ sampleJson_marshal_update
  rw [hdecodes, Containers.handleMessage_eq]
  rfl

end WeftAgent.Guestplane
