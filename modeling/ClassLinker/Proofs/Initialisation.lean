import Mathlib.Data.List.Induction
import ClassLinker.Proofs.Operations
import ClassLinker.Server.Basic

set_option autoImplicit false

namespace ClassLinker.Server

inductive Call where
  | request (w : Workspace) (r : Request)
  | notice (w : Workspace) (n : Notification)

def after (s : Server) : Call → Server
  | .request w r => (s.answer w r).server
  | .notice w n => (s.notice w n).2

def run (s : Server) (calls : List Call) : Server := calls.foldl after s

theorem run_append (s : Server) (calls : List Call) (call : Call) :
    s.run (calls ++ [call]) = (s.run calls).after call :=
  List.foldl_concat ..

def Call.Initialises (call : Call) : Prop := ∃ w root options, call = .request w (.initialise root options)

def Call.ShutsDown (call : Call) : Prop := ∃ w, call = .request w .shutdown

def configFrom (options : Json) (old : Config) : Config := (Config.ofJson options).toOption.getD old

inductive Step (s : Server) (call : Call) (s' : Server) : Prop where
  | told {w : Workspace} {root : Option String} {options : Json} (made : call = .request w (.initialise root options))
      (same : s' = { s with workspaceRoot := root, config := configFrom options s.config })
  | begun {w : Workspace} {root : String} {session : Session} (made : call = .notice w .initialised)
      (noted : s.workspaceRoot = some root) (settings : session.root = root ∧ session.config = s.config)
      (same : s' = { s with session := some session })
  | other (plain : ¬ call.Initialises) (root : s'.workspaceRoot = s.workspaceRoot) (config : s'.config = s.config)
      (session : ∀ session', s'.session = some session' → ¬ call.ShutsDown ∧
        ∃ session, s.session = some session ∧ Session.SameSettings session session')

theorem withSession_step (s : Server) {call : Call} (plain : ¬ call.Initialises) (stays : ¬ call.ShutsDown)
    {f : Session → Except RpcError Json × List LogMessage × Session}
    (settings : ∀ session, Session.SameSettings session (f session).2.2) : Step s call (s.withSession f).server := by
  unfold withSession
  cases live : s.session with
  | none => exact .other plain rfl rfl (by simp [live])
  | some session =>
    refine .other plain rfl rfl ?_
    rintro session' ⟨⟩
    exact ⟨stays, session, live, settings session⟩

theorem fileChanged_settings (w : Workspace) (events : List (String × FileChange))
    (state : List LogMessage × Session) :
    Session.SameSettings state.2 (events.foldl (fileChanged w) state).2 := by
  induction events generalizing state with
  | nil => exact .refl _
  | cons event rest ih =>
    have first : Session.SameSettings state.2 (fileChanged w state event).2 :=
      Session.run_sameSettings state.2 [.fileChanged w event.1 event.2]
    exact first.trans (ih _)

theorem request_step (s : Server) (w : Workspace) (r : Request) : Step s (.request w r) (s.after (.request w r)) := by
  have plain (differs : ∀ root options, r ≠ .initialise root options) : ¬ (Call.request w r).Initialises := by
    rintro ⟨_, root, options, same⟩
    cases same
    exact differs root options rfl
  have stays (differs : r ≠ .shutdown) : ¬ (Call.request w r).ShutsDown := by
    rintro ⟨_, same⟩
    cases same
    exact differs rfl
  rw [after]
  cases r with
  | initialise root options =>
    refine .told rfl ?_
    simp only [answer, initialise, configFrom]
    cases Config.ofJson options <;> rfl
  | transform id code =>
    rw [answer]
    exact withSession_step s (plain (by simp)) (stays (by simp)) fun session =>
      session.run_sameSettings [.transform w id code]
  | classMap => exact withSession_step s (plain (by simp)) (stays (by simp)) fun session => .refl session
  | virtualModule => exact withSession_step s (plain (by simp)) (stays (by simp)) fun session => .refl session
  | missingImports => exact withSession_step s (plain (by simp)) (stays (by simp)) fun session => .refl session
  | importClosure name => exact withSession_step s (plain (by simp)) (stays (by simp)) fun session => .refl session
  | rebuild =>
    rw [answer]
    exact withSession_step s (plain (by simp)) (stays (by simp)) fun session =>
      session.run_sameSettings [.discover w]
  | shutdown => exact .other (plain (by simp)) rfl rfl (by simp [answer])

theorem notice_step (s : Server) (w : Workspace) (n : Notification) : Step s (.notice w n) (s.after (.notice w n)) := by
  have plain : ¬ (Call.notice w n).Initialises := by simp [Call.Initialises]
  have stays : ¬ (Call.notice w n).ShutsDown := by simp [Call.ShutsDown]
  have idle : Step s (.notice w n) s :=
    .other plain rfl rfl fun session live => ⟨stays, session, live, .refl session⟩
  cases n with
  | initialised =>
    simp only [after, notice, begin]
    cases noted : s.workspaceRoot with
    | none => exact idle
    | some root =>
      simp only
      cases created : Session.create root s.config with
      | error problem => exact idle
      | ok session =>
        have settings : session.root = root ∧ session.config = s.config := by
          obtain ⟨included, excluded, _, _, rfl⟩ := Session.create_eq_blank.mp created
          exact ⟨rfl, rfl⟩
        have kept : Session.SameSettings session (session.discover w).2 := session.run_sameSettings [.discover w]
        refine .begun rfl noted ⟨kept.root.trans settings.1, kept.config.trans settings.2⟩ ?_
        rw [noted]
  | filesChanged events =>
    simp only [after, notice]
    cases live : s.session with
    | none => exact idle
    | some session =>
      refine .other plain rfl rfl ?_
      rintro session' ⟨⟩
      exact ⟨stays, session, live, fileChanged_settings w events ([], session)⟩

theorem after_step (s : Server) (call : Call) : Step s call (s.after call) := by
  cases call with
  | request w r => exact request_step s w r
  | notice w n => exact notice_step s w n

def Noted (calls : List Call) (root : Option String) (config : Config) : Prop :=
  ∃ earlier w options between, calls = earlier ++ .request w (.initialise root options) :: between ∧
    (∀ call ∈ between, ¬ call.Initialises) ∧ config = configFrom options (initial.run earlier).config

theorem Noted.append {calls : List Call} {root : Option String} {config : Config} (noted : Noted calls root config)
    {call : Call} (plain : ¬ call.Initialises) : Noted (calls ++ [call]) root config := by
  obtain ⟨earlier, w, options, between, rfl, quiet, same⟩ := noted
  refine ⟨earlier, w, options, between ++ [call], by simp, ?_, same⟩
  intro other member
  rcases List.mem_append.mp member with member | member
  next => exact quiet other member
  next =>
    rw [List.mem_singleton] at member
    exact member ▸ plain

theorem noted_run (calls : List Call) :
    (initial.run calls).workspaceRoot = none ∨
      Noted calls (initial.run calls).workspaceRoot (initial.run calls).config := by
  induction calls using List.reverseRecOn with
  | nil => exact .inl rfl
  | append_singleton calls call ih =>
    rw [run_append]
    cases after_step (initial.run calls) call with
    | told made same =>
      rw [same, made]
      exact .inr ⟨calls, _, _, [], rfl, by simp, rfl⟩
    | begun made noted _ same =>
      have plain : ¬ call.Initialises := by simp [made, Call.Initialises]
      rw [same]
      rcases ih with none | known
      next => exact .inl none
      next => exact .inr (known.append plain)
    | other plain root config _ =>
      rw [root, config]
      rcases ih with none | known
      next => exact .inl none
      next => exact .inr (known.append plain)

def Started (calls : List Call) (session : Session) : Prop :=
  ∃ before w later, calls = before ++ .notice w .initialised :: later ∧ (∀ call ∈ later, ¬ call.ShutsDown) ∧
    Noted before (some session.root) session.config

theorem Started.append {calls : List Call} {session session' : Session} (started : Started calls session)
    (settings : Session.SameSettings session session') {call : Call} (stays : ¬ call.ShutsDown) :
    Started (calls ++ [call]) session' := by
  obtain ⟨before, w, later, rfl, running, noted⟩ := started
  refine ⟨before, w, later ++ [call], by simp, ?_, by rw [settings.root, settings.config]; exact noted⟩
  intro other member
  rcases List.mem_append.mp member with member | member
  next => exact running other member
  next =>
    rw [List.mem_singleton] at member
    exact member ▸ stays

theorem started_run (calls : List Call) {session : Session} (live : (initial.run calls).session = some session) :
    Started calls session := by
  induction calls using List.reverseRecOn generalizing session with
  | nil => cases live
  | append_singleton calls call ih =>
    rw [run_append] at live
    cases after_step (initial.run calls) call with
    | told made same =>
      rw [same] at live
      exact (ih live).append (.refl session) (by simp [made, Call.ShutsDown])
    | @begun w root fresh made noted settings same =>
      -- what the new session is made of is what the server has noted
      rw [same] at live
      cases live
      obtain none | known := noted_run calls
      next => cases noted.symm.trans none
      next =>
        rw [noted, ← settings.1, ← settings.2] at known
        exact ⟨calls, w, [], by rw [made], by simp, known⟩
    | other _ _ _ kept =>
      obtain ⟨stays, old, was, settings⟩ := kept session live
      exact (ih was).append settings stays

/-- Whatever calls were made, the root of a live session is that of the last initialisation before the session was
started. If that initialisation was accepted, the configuration is its own too. If it was refused, the configuration is
the one that the server had before it. -/
theorem live_session_from_last_initialisation (calls : List Call) {session : Session}
    (live : (initial.run calls).session = some session) :
    ∃ earlier w options between w' later,
      calls = earlier ++ .request w (.initialise (some session.root) options) :: between ++
        .notice w' .initialised :: later ∧
      (∀ call ∈ between, ¬ call.Initialises) ∧ (∀ call ∈ later, ¬ call.ShutsDown) ∧
      let reply := (initial.run earlier).answer w (.initialise (some session.root) options)
      (∀ value, reply.result = .ok value → Config.ofJson options = .ok session.config) ∧
      ∀ e, reply.result = .error e → session.config = (initial.run earlier).config := by
  obtain ⟨before, w', later, rfl, running, earlier, w, options, between, rfl, quiet, config⟩ := started_run calls live
  refine ⟨earlier, w, options, between, w', later, rfl, quiet, running, ?_⟩
  rw [configFrom] at config
  simp only [answer, initialise]
  cases read : Config.ofJson options with
  | error problem => exact ⟨by simp, fun _ _ => by simpa [read, Except.toOption] using config⟩
  | ok new => exact ⟨fun _ _ => by simpa [read, Except.toOption] using config.symm, by simp⟩

theorem live_session_from_second_initialisation :
    let options : Json := .object [("scripts", .array [.string "ts"])]
    let calls : List Call := [.request .empty (.initialise (some "/one") .null),
      .request .empty (.initialise (some "/two") options), .notice .empty .initialised, .request .empty .rebuild]
    ∃ session, (initial.run calls).session = some session ∧ session.root = "/two" ∧
      Config.ofJson options = .ok session.config := by
  -- A server is initialised for one root and then for another, and started.
  intro options calls
  have runs : (initial.run calls).session.map (·.root) = some "/two" ∧ (Config.ofJson options).isOk = true := by
    decide +kernel
  obtain ⟨session, live, root⟩ := Option.map_eq_some_iff.mp runs.1
  refine ⟨session, live, root, ?_⟩
  obtain ⟨earlier, w, options', between, w', later, made, _, _, accepted, _⟩ :=
    live_session_from_last_initialisation calls live
  -- only the second call is for this root
  have second : options' = options := by
    rw [root] at made
    rcases earlier with _ | ⟨_, _ | ⟨_, _ | ⟨_, _ | ⟨_, rest⟩⟩⟩⟩ <;> simp_all [calls]
  subst second
  cases read : Config.ofJson options with
  | error problem => simp [read, Except.isOk, Except.toBool] at runs
  | ok config =>
    rw [← read]
    exact accepted capabilities (by simp [answer, initialise, read])

/-- After an initialisation that was refused a session starts with its root, and with the configuration that an earlier
one for another root gave, or with none that was ever given. -/
theorem session_mixed_from_two_initialisations :
    let good : Json := .object [("scripts", .array [.string "ts"])]
    let bad : Json := .object [("scripts", .integer 1)]
    let first : Call := .request .empty (.initialise (some "/one") good)
    let second : Call := .request .empty (.initialise (some "/two") bad)
    ((initial.after first).answer .empty (.initialise (some "/two") bad)).result.isOk = false ∧
      (initial.run [first, second, .notice .empty .initialised]).session.map (fun s => (s.root, s.config.scripts)) =
        some ("/two", ["ts"]) ∧
      (initial.run [second, .notice .empty .initialised]).session.map (·.root) = some "/two" := by
  decide +kernel

end ClassLinker.Server
