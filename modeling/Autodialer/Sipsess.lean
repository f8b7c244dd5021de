import Autodialer.SipRequest

/-!
# SIP sessions (`sipsess/sess.c`, `connect.c`, `close.c`)

A session is made by `sipsess_connect` and dies when its last reference goes: that of its user, or
that of a request that it waits for after it has been terminated. A destructor that finds a request
pending, or a call to be hung up, takes a reference again, and the session lives on with handlers
that do nothing.

The program never modifies a session and offers no early answer of its own, so a session has no
pending replies, no requests but INVITE and BYE, and no timer. Its handlers for an answer and for an
offer return a value and do no more; the others may make calls of their own.
-/

namespace Autodialer

/-- `sip_request_loops`; the counter is that of the C type. -/
def sipRequestLoops (ls : LoopState) (scode : Nat) : LoopState × Bool :=
  if scode < 200 then (ls, false)
  else if scode < 300 then ({ failc := 0, lastScode := scode }, false)
  else if scode < 400 then
    ({ failc := ls.failc + 1, lastScode := scode }, decide (16 ≤ ls.failc + 1))
  else
    let again := decide (scode ≠ 401 ∧ scode ≠ 407 ∧ scode ≠ 491 ∧ ls.lastScode = scode)
    ({ failc := ls.failc + 1, lastScode := scode }, again || decide (16 ≤ ls.failc + 1))

/-- What an entry does to what the user has of the session `s`. -/
def Entry.userView (s : SipsessId) (sess : Sess) : Entry → Sess
  | .connected s' => if s' = s then .live else sess
  | .close s' _ _ => if s' = s then .terminated else sess
  | .released s' => if s' = s then .null else sess
  | _ => sess

/-- What the user has of a session: nothing, a session that may call back, or one that has called
the close handler. -/
def sessOf (log : List Entry) (s : SipsessId) : Sess := log.foldl (Entry.userView s) .null

namespace Ua

/-! ## Sessions that end -/

/-- `termwait`; says whether the session waits for a request. -/
def termwait (u : Ua) (env : UaEnv) (s : SipsessId) : UaExec (Ua × Bool) := do
  let sess ← follow .sipsess u.sessions s
  let u := u.setSession s fun sess => { sess with terminated := .waiting }
  match sess.req with
  | some r => do
    let u ← u.requestCancel env r
    let _ ← follow .sipsess u.sessions s
    pure (u.setSession s fun sess => { sess with nrefs := sess.nrefs + 1 }, true)
  | none => pure (u, false)

/-- `sipsess_bye`; says whether the request was made. -/
def sipsessBye (u : Ua) (env : UaEnv) (s : SipsessId) (resetLs : Bool) : UaExec (Ua × Bool) := do
  let sess ← follow .sipsess u.sessions s
  if sess.req.isSome then pure (u, false)
  else do
    let u := if resetLs then u.setSession s fun sess => { sess with ls := {} } else u
    let (u, made) ← u.sipRequest env false s (.bye s)
    pure (u.logged (.bye s made), made)

/-- `terminate`; says whether the session waits for the answer to a BYE. -/
def sessTerminate (u : Ua) (env : UaEnv) (s : SipsessId) : UaExec (Ua × Bool) := do
  let sess ← follow .sipsess u.sessions s
  let u := u.setSession s fun sess => { sess with terminated := .ended }
  if !sess.established || sess.peerterm then pure (u, false)
  else do
    let (u, made) ← u.sipsessBye env s true
    if made then do
      let _ ← follow .sipsess u.sessions s
      pure (u.setSession s fun sess => { sess with nrefs := sess.nrefs + 1 }, true)
    else pure (u, false)

/-- `destructor`: the last case is what a session does that waits for nothing. -/
def sessDestructor (u : Ua) (env : UaEnv) (s : SipsessId) : UaExec Ua := do
  let sess ← follow .sipsess u.sessions s
  let (u, waits) ← match sess.terminated with
    | .no => do
      let (u, waits) ← u.termwait env s
      if waits then pure (u, true) else u.sessTerminate env s
    | .waiting => u.sessTerminate env s
    | .ended => pure (u, false)
  if waits then pure u
  else do
    let sess ← follow .sipsess u.sessions s
    match sess.req with
    | some r => u.memDerefRequest env r
    | none => pure u

/-- `mem_deref` on a session; the destructor may have taken a reference. -/
def memDerefSipsess (u : Ua) (env : UaEnv) (s : SipsessId) : UaExec Ua := do
  let sess ← follow .sipsess u.sessions s
  let u := u.setSession s fun sess => { sess with nrefs := sess.nrefs - 1 }
  if 0 < sess.nrefs - 1 then pure u
  else do
    let u ← u.sessDestructor env s
    let sess ← follow .sipsess u.sessions s
    if 0 < sess.nrefs then pure u
    else pure ({ u with sessions := u.sessions.free s }.logged (.freed s))

/-! ## What the user calls -/

/-- `invite` -/
def invite (u : Ua) (env : UaEnv) (s : SipsessId) : UaExec (Ua × Bool) := do
  let _ ← follow .sipsess u.sessions s
  let (u, made) ← u.sipRequest env true s (.invite s)
  pure (u.logged (.invite s made), made)

/-- `sipsess_connect`; the session, if there is one. -/
def sipsessConnect (u : Ua) (env : UaEnv) : UaExec (Ua × Option SipsessId) := do
  let s := u.sessions.next
  let u := { u with sessions := u.sessions.alloc {} }
  let (u, made) ← u.invite env s
  if made then pure (u.logged (.connected s), some s)
  else do
    let u ← u.memDerefSipsess env s
    pure (u, none)

/-- The user derefs the session. -/
def release (u : Ua) (env : UaEnv) (s : SipsessId) : UaExec Ua :=
  (u.logged (.released s)).memDerefSipsess env s

/-- A call of the user, which derefs no session that it does not have. -/
def userCall (u : Ua) : UserCall × UaEnv → UaExec Ua
  | (.connect, env) => do
    let (u, _) ← u.sipsessConnect env
    pure u
  | (.deref s, env) => if sessOf u.log s = .null then pure u else u.release env s

/-- A handler of the user is called, and makes calls. -/
def called (u : Ua) (env : UaEnv) (e : Entry) : UaExec Ua := env.user.foldlM userCall (u.logged e)

/-! ## Sessions that call back -/

/-- `sipsess_terminate` -/
def sipsessTerminate (u : Ua) (env : UaEnv) (s : SipsessId) (err : Bool) (scode : Nat) :
    UaExec Ua := do
  let sess ← follow .sipsess u.sessions s
  if sess.terminated ≠ .no then pure u
  else do
    let (u, waits) ← u.termwait env s
    let u ← if waits then pure u else do
      let (u, _) ← u.sessTerminate env s
      pure u
    u.called env (.close s err scode)

/-- What follows the label `out` of `invite_resp_handler`. -/
def inviteOut (u : Ua) (env : UaEnv) (s : SipsessId) (err : Bool) (scode : Nat) : UaExec Ua := do
  let sess ← follow .sipsess u.sessions s
  if sess.terminated = .no then u.sipsessTerminate env s err scode
  else u.memDerefSipsess env s

/-- `invite_resp_handler` for a response that is no error; the `INVITE` had an offer. -/
def inviteResponded (u : Ua) (env : UaEnv) (s : SipsessId) (scode : Nat) : UaExec Ua := do
  let sess ← follow .sipsess u.sessions s
  if scode < 200 then
    if sess.terminated = .no then u.called env (.progress s scode) else pure u
  else if scode < 300 then
    if !env.dialogCreate then u.inviteOut env s true scode
    else do
      -- the internal handler returns ENOSYS
      let (u, answered) :=
        if sess.terminated = .no then (u.logged (.answer s), env.answer) else (u, false)
      let u := u.logged (.answered s)
      let u := u.setSession s fun sess => { sess with established := true }
      if !answered || !env.ack || sess.terminated ≠ .no then
        u.inviteOut env s (!answered || !env.ack) scode
      else u.called env (.establish s)
  else if sess.terminated ≠ .no then u.inviteOut env s false scode
  else if scode < 400 then
    if !env.dialogUpdate then u.inviteOut env s true scode
    else do
      let (u, made) ← u.invite env s
      if made then pure u else u.inviteOut env s true scode
  else if scode = 401 ∨ scode = 407 then
    if env.authenticate ≠ .done then u.inviteOut env s (env.authenticate = .failed) scode
    else do
      let (u, made) ← u.invite env s
      if made then pure u else u.inviteOut env s true scode
  else u.inviteOut env s false scode

/-- `invite_resp_handler`; without an error there is a response with the code `scode`. -/
def inviteRespHandler (u : Ua) (env : UaEnv) (s : SipsessId) (err : Bool) (scode : Nat) :
    UaExec Ua := do
  let sess ← follow .sipsess u.sessions s
  if err then u.inviteOut env s true scode
  else do
    let (ls, loops) := sipRequestLoops sess.ls scode
    let u := u.setSession s fun sess => { sess with ls := ls }
    if loops then u.inviteOut env s false scode
    else u.inviteResponded env s scode

/-- `bye_resp_handler` -/
def byeRespHandler (u : Ua) (env : UaEnv) (s : SipsessId) (err : Bool) (scode : Nat) :
    UaExec Ua := do
  let sess ← follow .sipsess u.sessions s
  if err then u.memDerefSipsess env s
  else do
    let (ls, loops) := sipRequestLoops sess.ls scode
    let u := u.setSession s fun sess => { sess with ls := ls }
    if loops then u.memDerefSipsess env s
    else if scode < 200 then pure u
    else if scode < 300 || sess.peerterm then u.memDerefSipsess env s
    else if (scode = 401 ∨ scode = 407) ∧ env.authenticate = .done then do
      let (u, made) ← u.sipsessBye env s false
      if made then pure u else u.memDerefSipsess env s
    else u.memDerefSipsess env s

/-- The handler of a request. -/
def callResph (u : Ua) (env : UaEnv) (resph : RespHandler) (err : Bool) (scode : Nat) :
    UaExec Ua :=
  match resph with
  | .invite s => u.inviteRespHandler env s err scode
  | .bye s => u.byeRespHandler env s err scode

end Ua

end Autodialer
