import IMServer.Server.Handlers

/-!
# Routing and authentication

`Server::Login` enters the connection before it checks the password and never takes the entry
back. The entries are those of authenticated connections exactly as long as every login
succeeds.
-/

namespace IMServer.Server

open IMServer.Base IMServer.Business

/-! ### When a login succeeds -/

/-- The pool has a connection, the query is answered and a row matches. -/
def Authenticates (w : World) (message : Login) : Prop :=
  w.outcome = .done ∧ w.spend.spend.outcome = .done ∧ loginRows w message ≠ []

private theorem loginChecked_result (message : Login) (ml : Option Handle) (w : World) :
    ∃ res w', Prog.run exec (loginChecked message true ml) w = (.ok res, w') ∧
      (res.1 = true ↔ ml ≠ none ∧ w.outcome = .done ∧ loginRows w message ≠ []) := by
  cases ml with
  | none => exact ⟨_, _, rfl, by simp⟩
  | some h =>
    simp only [loginChecked, reduceCtorEq, Bool.true_eq_false, or_self, if_false, Prog.run_bind,
      Prog.run_request]
    by_cases ho : w.outcome = .done
    · have hrows : exec (.queryLogin message.username message.password) w =
          (some (loginRows w message), w.spend) := by
        simp only [exec, ho, if_true]
        rfl
      rw [hrows]
      cases hr : loginRows w message with
      | nil => exact ⟨_, _, rfl, by simp⟩
      | cons row rows =>
        simp only [getCacheConn, if_true, Prog.run_bind, Prog.run_request]
        -- a session that cannot be stored does not make the login fail
        cases (exec (.getCacheConn (redisname message.username)) w.spend).1 with
        | none => exact ⟨_, _, rfl, by simp [ho]⟩
        | some conn => exact ⟨_, _, rfl, by simp [ho]⟩
    · have hrows : exec (.queryLogin message.username message.password) w = (none, w.spend) := by
        simp only [exec, ho, if_false]
      rw [hrows]
      exact ⟨_, _, rfl, by simp [ho]⟩

private theorem exec_getConnection_result (w : World) :
    ((exec .getConnection w).1 ≠ none ↔ w.outcome = .done) ∧
      (exec .getConnection w).2.oracle = w.spend.oracle ∧
      (exec .getConnection w).2.imUser = w.imUser := by
  simp only [exec]
  split
  · next ho => exact ⟨by simp [ho], rfl, rfl⟩
  · next ho => exact ⟨by simp [ho], rfl, rfl⟩

/-- `Business::Login` returns 0 exactly when the login is authenticated. -/
theorem login_result (message : Login) {w : World} (hm : w.spend.outcome = .done) :
    ∃ res w', Prog.run exec (Business.login message) w = (.ok res, w') ∧
      (res.1 = 0 ↔ Authenticates w message) := by
  obtain ⟨hml, horacle, huser⟩ := exec_getConnection_result w
  simp only [Business.login, Prog.run_bind, Prog.run_request]
  generalize exec .getConnection w = r at hml horacle huser ⊢
  obtain ⟨ml, w₁⟩ := r
  have hout₁ : w₁.outcome = w.spend.outcome := congrArg (·.outcomes.headD .done) horacle
  have hout : w₁.spend.outcome = w.spend.spend.outcome :=
    congrArg (·.outcomes.tail.headD .done) horacle
  have hm₁ : exec .getInstance w₁ = (true, w₁.spend) :=
    congrArg (·, w₁.spend) (decide_eq_true (hout₁.trans hm))
  obtain ⟨res, w₂, hrun, hres⟩ := loginChecked_result message ml w₁.spend
  have hrows : loginRows w₁.spend message = loginRows w message := by
    rw [loginRows, loginRows, ← huser]
    rfl
  rw [hml, hout, hrows] at hres
  simp only [hm₁, hrun, relCacheConn, if_true, Prog.run_request]
  refine ⟨_, _, rfl, ?_⟩
  rw [Authenticates, ← hres]
  cases res.1 <;> simp

/-- Without a cache manager `Business::Login` does not return. -/
theorem login_no_manager (message : Login) {w : World} (hm : w.spend.outcome ≠ .done) :
    ∃ w', Prog.run exec (Business.login message) w = (.error .nullPointer, w') := by
  obtain ⟨-, horacle, -⟩ := exec_getConnection_result w
  simp only [Business.login, Prog.run_bind, Prog.run_request]
  generalize exec .getConnection w = r at horacle ⊢
  obtain ⟨ml, w₁⟩ := r
  have hout₁ : w₁.outcome = w.spend.outcome := congrArg (·.outcomes.headD .done) horacle
  have hm₁ : exec .getInstance w₁ = (false, w₁.spend) :=
    congrArg (·, w₁.spend) (decide_eq_false (hout₁ ▸ hm))
  simp only [hm₁, loginChecked, or_true, if_true, Prog.run_pure, relCacheConn, Bool.false_eq_true,
    if_false, Prog.run_throw]
  exact ⟨_, rfl⟩

/-! ### The history of the routing table -/

/-- What `Business::Login` returns to `Server::Login`. -/
def loginCode (w : World) (conn : ConnId) (message : Login) : Option Int :=
  match Prog.run exec (Business.login message) (entered w message.username conn) with
  | (.ok (isOK, _), _) => some isOK
  | (.error _, _) => none

/-- The server with, for every user, the last login that wrote the entry: its connection and
what `Business::Login` returned. -/
structure Routed where
  world : World
  lastLogin : String → Option (ConnId × Option Int) := fun _ => none

def routedStep (wire : Wire) (s : Routed) (e : Event) : Option Routed :=
  (serverStep wire s.world e).map fun w' =>
    { world := w'
      lastLogin := match e with
        | .login conn message => Function.update s.lastLogin message.username
            (some (conn, loginCode s.world conn message))
        | _ => s.lastLogin }

/-- Every entry was last written by a login on that connection that returned 0. -/
def Authenticated (s : Routed) : Prop :=
  ∀ username conn, s.world.connMap username = some conn →
    s.lastLogin username = some (conn, some 0)

/-- What a chat message makes the server send goes to a connection that authenticated as the
receiver. -/
def SentToReceiver (s s' : Routed) : Event → Prop
  | .chat message => ∃ out, s'.world.sent = s.world.sent ++ out ∧
      ∀ x ∈ out, s.lastLogin message.receiver = some (x.1, some 0)
  | _ => True

/-- A login that the cache manager does not abort is authenticated. -/
def Event.Allowed (w : World) : Event → Prop
  | .login _ message => w.spend.outcome = .done → Authenticates w message
  | _ => True

/-! ### One event -/

/-- What is sent, if anything, goes to the given connection. -/
def SendsTo (conn : ConnId) (w w' : World) : Prop :=
  w'.connMap = w.connMap ∧ ∃ out, w'.sent = w.sent ++ out ∧ ∀ x ∈ out, x.1 = conn

private theorem sendsTo_send (conn : ConnId) (message : Outgoing) (w : World) :
    SendsTo conn w (exec (.send conn message) w).2 := by
  dsimp only [exec]
  split
  · exact ⟨rfl, [(conn, message)], rfl, by simp⟩
  · exact ⟨rfl, [], by simp, by simp⟩

/-- A business function whose answer is sent. -/
theorem sendsTo_answer {α : Type} {p : Op α} (hp : Prog.Uses Internal p) (conn : ConnId)
    (answer : α → Outgoing) (w : World) :
    SendsTo conn w (Prog.run exec (p >>= fun a => issue (.send conn (answer a))) w).2 := by
  obtain ⟨hmap, hsent⟩ := run_internal hp w
  rw [Prog.run_bind]
  generalize Prog.run exec p w = r at hmap hsent
  obtain ⟨e | a, w'⟩ := r
  · exact ⟨hmap, [], by simpa using hsent, by simp⟩
  · obtain ⟨hmap', out, hout, hto⟩ := sendsTo_send conn (answer a) w'
    exact ⟨hmap'.trans hmap, out, hsent ▸ hout, hto⟩

private theorem sendsTo_chatConnected
    (wire : Wire) (conn : ConnId) (message : SingleChat) (w : World) :
    SendsTo conn w (Prog.run exec (chatConnected wire conn message) w).2 := by
  unfold chatConnected
  split
  · exact sendsTo_send conn _ w
  split
  · exact sendsTo_answer (uses_sendHongbao wire message.hbreq) conn
      (fun res => .chat { hbrsp := res.2, type := 2 }) w
  split
  · exact sendsTo_answer (uses_robHongbao wire message.robhbreq) conn
      (fun res => .chat { robhbrsp := res.2, type := 4 }) w
  · exact ⟨rfl, [], by simp, by simp⟩

/-- A chat message leaves the routing table, and what is sent goes to the entry of the
receiver. -/
theorem singleChat_sends (wire : Wire) (message : SingleChat) (w : World) :
    (Prog.run exec (singleChat wire message) w).2.connMap = w.connMap ∧
      ∃ out, (Prog.run exec (singleChat wire message) w).2.sent = w.sent ++ out ∧
        ∀ x ∈ out, w.connMap message.receiver = some x.1 := by
  rw [singleChat, Prog.run_bind, Prog.run_request]
  simp only [exec]
  cases hconn : w.connMap message.receiver with
  | none =>
    obtain ⟨hmap, hsent⟩ := run_internal (Prog.uses_bind
      (uses_cacheMessage wire message.receiver message) fun _ => Prog.uses_pure ()) w
    exact ⟨hmap, [], by simpa using hsent, by simp⟩
  | some conn =>
    obtain ⟨hmap, out, hout, hto⟩ := sendsTo_chatConnected wire conn message w
    exact ⟨hmap, out, hout, fun x hx => congrArg some (hto x hx).symm⟩

private theorem chat_authenticated (wire : Wire) {s : Routed} (h : Authenticated s)
    (message : SingleChat) (s' : Routed) (hs : routedStep wire s (.chat message) = some s') :
    Authenticated s' ∧ SentToReceiver s s' (.chat message) := by
  obtain ⟨w', hw', rfl⟩ := Option.map_eq_some_iff.mp hs
  obtain ⟨hmap, out, hout, hto⟩ := singleChat_sends wire message s.world
  rw [← eq_of_returned hw'] at hmap hout
  refine ⟨fun username conn hu => ?_, out, hout, fun x hx => h _ _ (hto x hx)⟩
  exact h username conn (hmap ▸ hu)

/-- An entry written by a login is authenticated exactly when the login returned 0. -/
theorem Authenticated.entered_iff {s s' : Routed} (h : Authenticated s) {username : String}
    {conn : ConnId} {isOK : Int}
    (hmap : s'.world.connMap = Function.update s.world.connMap username (some conn))
    (hlast : s'.lastLogin = Function.update s.lastLogin username (some (conn, some isOK))) :
    Authenticated s' ↔ isOK = 0 := by
  constructor
  · intro h'
    have hu := h' username conn (by rw [hmap, Function.update_self])
    rw [hlast, Function.update_self] at hu
    simpa using hu
  · rintro rfl username' conn' hu
    rw [hmap] at hu
    rw [hlast]
    by_cases hname : username' = username
    · subst hname
      rw [Function.update_self] at hu ⊢
      rw [Option.some.inj hu]
    · rw [Function.update_of_ne hname] at hu ⊢
      exact h username' conn' hu

/-- After a login the entries are those of authenticated connections exactly when the login
was authenticated. -/
theorem login_authenticated_iff (wire : Wire) {s : Routed} (h : Authenticated s) (conn : ConnId)
    (message : Login) :
    (∀ s', routedStep wire s (.login conn message) = some s' → Authenticated s') ↔
      Event.Allowed s.world (.login conn message) := by
  by_cases hm : s.world.spend.outcome = .done
  · obtain ⟨⟨isOK, answer⟩, w₂, hrun, hres⟩ := login_result message
      (w := entered s.world message.username conn) hm
    have hcode : loginCode s.world conn message = some isOK := by rw [loginCode, hrun]
    have hstep : routedStep wire s (.login conn message) =
        (returned (Prog.run exec (answerLogin wire conn message.username isOK answer) w₂)).map
          fun w' =>
            ⟨w', Function.update s.lastLogin message.username (some (conn, some isOK))⟩ := by
      rw [routedStep, serverStep, run_login, hrun, hcode]
    have hiff : ∀ s', routedStep wire s (.login conn message) = some s' →
        (Authenticated s' ↔ isOK = 0) := by
      intro s' hs'
      rw [hstep] at hs'
      obtain ⟨w', hw', rfl⟩ := Option.map_eq_some_iff.mp hs'
      refine h.entered_iff ?_ rfl
      rw [eq_of_returned hw', (run_delivers (uses_answerLogin _ _ _ _ _) w₂).2.1]
      have hmap := (run_internal (uses_login message plainWire)
        (entered s.world message.username conn)).1
      rwa [hrun] at hmap
    refine ⟨fun hall _ => hres.mp ?_, fun hallow s' hs' => (hiff s' hs').mpr (hres.mpr (hallow hm))⟩
    -- a login that fails is answered and returns
    by_contra hfail
    have hret : ∃ s', routedStep wire s (.login conn message) = some s' := by
      rw [hstep, answerLogin, Prog.run_bind, Prog.run_request]
      simp only [hfail, if_false, Prog.run_pure, returned, Option.map_some]
      exact ⟨_, rfl⟩
    obtain ⟨s', hs'⟩ := hret
    exact hfail ((hiff s' hs').mp (hall s' hs'))
  · obtain ⟨w₂, hrun⟩ := login_no_manager message
      (w := entered s.world message.username conn) hm
    have hnone : routedStep wire s (.login conn message) = none := by
      rw [routedStep, serverStep, run_login, hrun]
      rfl
    rw [hnone]
    exact iff_of_true nofun fun hm' => absurd hm' hm

/-! ### Whole runs -/

/-- Along any run of connections, logins, chat messages and closes, whatever the stores
answer: every entry was last written by a login on that connection that returned 0, and what
chat messages send goes only to connections that authenticated as the receiver, exactly when
every login is authenticated in the state it finds. -/
theorem routing_authenticated_iff (wire : Wire) (s : Routed) (hs : Authenticated s)
    (events : List Event) :
    Legal (routedStep wire) (fun s e => ∀ s', routedStep wire s e = some s' →
        Authenticated s' ∧ SentToReceiver s s' e) s events ↔
      Legal (routedStep wire) (fun s e => e.Allowed s.world) s events := by
  have hpre : ∀ e ∈ events, True := fun _ _ => trivial
  refine legal_congr Authenticated (fun s e h _ => ?_) events hpre hs
  have hiff : (∀ s', routedStep wire s e = some s' → Authenticated s' ∧ SentToReceiver s s' e) ↔
      e.Allowed s.world := by
    cases e with
    | chat message => exact iff_of_true (chat_authenticated wire h message) trivial
    | login conn message =>
      simp only [SentToReceiver, and_true]
      exact login_authenticated_iff wire h conn message
    | established conn =>
      refine iff_of_true (fun s' hs' => ⟨?_, trivial⟩) trivial
      obtain ⟨w', hw', rfl⟩ := Option.map_eq_some_iff.mp hs'
      rw [eq_setState_of_established hw']
      exact h
    | close conn =>
      refine iff_of_true (fun s' hs' => ⟨?_, trivial⟩) trivial
      obtain ⟨w', hw', rfl⟩ := Option.map_eq_some_iff.mp hs'
      rw [eq_setState_of_close hw']
      exact h
  exact ⟨hiff, fun hq s' hs' => (hiff.mpr hq s' hs').1⟩

/-- Alice has an account, and nobody is logged in. -/
def nobodyRouted : Routed where
  world :=
    { imUser := [{ name := "alice", password := "pw" }]
      connState := fun _ => .kConnected }

private theorem authenticated_nobodyRouted : Authenticated nobodyRouted := nofun

/-- After a login as Alice with a wrong password, messages for Alice are sent on the
connection it came from. -/
theorem routing_not_authenticated :
    let message : SingleChat := { receiver := "alice", sender := "bob", message := "hi" }
    Authenticated nobodyRouted ∧ ∃ s₁ s₂,
      run (routedStep plainWire) nobodyRouted
        [.login 9 { username := "alice", password := "guess" }] = some s₁ ∧
      s₁.world.connMap "alice" = some 9 ∧ s₁.lastLogin "alice" = some (9, some (-1)) ∧
      routedStep plainWire s₁ (.chat message) = some s₂ ∧
      s₂.world.sent = s₁.world.sent ++ [(9, .chat message)] :=
  ⟨authenticated_nobodyRouted, _, _, rfl, rfl, rfl, rfl, rfl⟩

/-- Alice logs in on a connection. -/
theorem routing_authenticated_iff_alice :
    let events := [Event.login 9 { username := "alice", password := "pw" },
      .chat { receiver := "alice", sender := "bob", message := "hi" }]
    Authenticated nobodyRouted ∧
      (Legal (routedStep plainWire) (fun s e => ∀ s', routedStep plainWire s e = some s' →
          Authenticated s' ∧ SentToReceiver s s' e) nobodyRouted events ↔
        Legal (routedStep plainWire) (fun s e => e.Allowed s.world) nobodyRouted events) :=
  ⟨authenticated_nobodyRouted,
    routing_authenticated_iff plainWire _ authenticated_nobodyRouted _⟩

end IMServer.Server
