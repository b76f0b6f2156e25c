import NfsProvisioner.Controller

/-!
# Dispatch is faithful

What `dispatch` does with a handler is seen by giving it one that keeps a record: of the requests
that reach it, and of what is logged beside. The record shows that each message comes to one thing
only (`run_dispatch`): a request reaches the handler once, as it is in the message, and a response
is logged once. What the answer to a request becomes is a relation with one case for each request
(`Answers`).
-/
namespace NfsProvisioner

/-- The response that belongs to a request and its answer. -/
inductive Answers : (request : Request) → Except Error request.Answer → Response → Prop
  | volumeCreated (request : CreateVolumeRequest) (volume : Volume) :
    Answers (.createVolume request) (.ok volume) (.volumeCreated volume)
  | volumeDeleted (id : VolumeId) : Answers (.deleteVolume id) (.ok ()) .ok
  | capabilitiesValid (id : VolumeId) (capabilities : List (Option VolumeCapability))
      (valid : Bool) :
    Answers (.validateVolumeCapabilities id capabilities) (.ok valid) (.capabilitiesValid valid)
  | volumeList (volumes : List Volume) : Answers .listVolumes (.ok volumes) (.volumeList volumes)
  | capacity (bytes : UInt64) : Answers .getCapacity (.ok bytes) (.capacity bytes)
  | controllerCapabilities (capabilities : List ControllerCapability) :
    Answers .controllerGetCapabilities (.ok capabilities) (.controllerCapabilities capabilities)
  | probeResult (healthy : Bool) : Answers .probe (.ok healthy) (.probeResult healthy)
  | pluginInfo (info : PluginInfo) : Answers .getPluginInfo (.ok info) (.pluginInfo info)
  | pluginCapabilities (capabilities : List PluginCapability) :
    Answers .getPluginCapabilities (.ok capabilities) (.pluginCapabilities capabilities)
  | failed (request : Request) (reason : Error) :
    Answers request (.error reason) (.error reason)

/-- There is one response to each answer. -/
theorem answers_iff {request : Request} {answer : Except Error request.Answer}
    {response : Response} :
    Answers request answer response ↔ response = request.respond answer := by
  constructor
  · intro h
    cases h with
    | failed request reason => cases request <;> rfl
    | _ => rfl
  · rintro rfl
    cases answer with
    | error reason =>
      have hfailed := Answers.failed request reason
      cases request <;> exact hfailed
    | ok value => cases request <;> constructor

/-- Something that a message comes to. -/
inductive Observation where
  /-- A request reaches the handler. -/
  | reached (request : Request)
  | logged (event : Event)
deriving DecidableEq

/-- What a message comes to. -/
def Message.observation : Message → Observation
  | .request r => .reached r
  | .response r => .logged (unexpectedMessage r)

variable {m : Type → Type} [Monad m]

/-- The handler that writes down each request that reaches it. -/
def Handler.recorded (handler : Handler m) : Handler (StateT (List Observation) m) :=
  fun request => do
    modify (· ++ [.reached request])
    handler request

/-- The log that writes down each event. -/
def record (event : Event) : StateT (List Observation) m Unit :=
  modify (· ++ [.logged event])

section

variable [LawfulMonad m] (handler : Handler m)

/-- Each message comes to one thing, and is answered as it is when no record is kept. -/
theorem run_dispatch (message : Message) (seen : List Observation) :
    (dispatch handler.recorded record message).run seen =
      (fun response => (response, seen ++ [message.observation])) <$>
        dispatch handler (fun _ => pure ()) message := by
  cases message with
  | request request => simp [dispatch, Handler.recorded, Message.observation]
  | response response => simp [dispatch, record, Message.observation]

theorem run_dispatch_request (request : Request) (seen : List Observation) :
    (dispatch handler.recorded record (.request request)).run seen =
      (fun answer => (request.respond answer, seen ++ [.reached request])) <$> handler request := by
  rw [run_dispatch]
  simp [dispatch, Message.observation]

theorem run_dispatch_response (response : Response) (seen : List Observation) :
    (dispatch handler.recorded record (.response response)).run seen =
      pure (.error (.invalidArgument ("unexpected message: " ++ response.display)),
        seen ++ [.logged (unexpectedMessage response)]) := by
  rw [run_dispatch]
  simp [dispatch, Message.observation]

/-- Whatever the handler does, a request reaches it once and unchanged, nothing else reaches it and
nothing is logged, and its answer comes back in the response that belongs to the request, or as the
error that it is. A response never reaches it: one warning is logged, and the error that is the
answer shows the response. So an answer that is dispatched again never reaches the handler. -/
theorem dispatch_is_faithful (seen : List Observation) :
    (∀ request : Request, ∃ reply : Except Error request.Answer → Response,
      (∀ answer response, Answers request answer response ↔ response = reply answer) ∧
        (dispatch handler.recorded record (.request request)).run seen =
          (fun answer => (reply answer, seen ++ [.reached request])) <$> handler request) ∧
    (∀ response : Response, ∃ warning : Event, warning.level = .warning ∧
      (dispatch handler.recorded record (.response response)).run seen =
        pure (.error (.invalidArgument ("unexpected message: " ++ response.display)),
          seen ++ [.logged warning])) ∧
    ∀ message : Message, ∃ warning : Response → Event,
      (∀ answer, (warning answer).level = .warning) ∧
        (dispatch handler.recorded record message >>= fun answer =>
            dispatch handler.recorded record (.response answer)).run seen =
          (fun (answer, earlier) =>
            (.error (.invalidArgument ("unexpected message: " ++ answer.display)),
              earlier ++ [.logged (warning answer)])) <$>
            (dispatch handler.recorded record message).run seen := by
  refine ⟨fun request => ⟨request.respond, fun answer response => answers_iff,
    run_dispatch_request handler request seen⟩,
    fun response => ⟨unexpectedMessage response, rfl, run_dispatch_response handler response seen⟩,
    fun message => ⟨unexpectedMessage, fun answer => rfl, ?_⟩⟩
  rw [StateT.run_bind, map_eq_pure_bind]
  apply bind_congr
  intro result
  exact run_dispatch_response handler result.1 result.2

end

/-- A controller lists no volumes and says so. Its answer is no request either. -/
theorem listing_reaches_controller_once :
    let handler := (Controller.start {} {} []).handle
    let again := dispatch handler.recorded record (.request .listVolumes) >>= fun answer =>
      dispatch handler.recorded record (.response answer)
    LawfulMonad Procedure ∧ ∃ warning : Event, warning.level = .warning ∧
      again.run [] = pure
        (.error (.invalidArgument "unexpected message: Error(unimplemented: ListVolumes)"),
          [.reached .listVolumes, .logged warning]) := by
  intro handler again
  obtain ⟨hrequest, -, hagain⟩ := dispatch_is_faithful handler []
  obtain ⟨reply, hreply, hfirst⟩ := hrequest .listVolumes
  obtain ⟨warning, hwarning, hrun⟩ := hagain (.request .listVolumes)
  have hanswer : reply (.error (.unimplemented "ListVolumes")) =
      .error (.unimplemented "ListVolumes") :=
    ((hreply _ _).1 (.failed _ _)).symm
  refine ⟨inferInstance, warning (.error (.unimplemented "ListVolumes")), hwarning _, ?_⟩
  have hlisting : handler .listVolumes = pure (.error (.unimplemented "ListVolumes")) := rfl
  rw [hrun, hfirst, hlisting, map_pure, map_pure, hanswer]
  rfl

end NfsProvisioner
