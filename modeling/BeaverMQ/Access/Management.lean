import BeaverMQ.Model.Http

/-!
# BeaverMQ — who may use the management API

What a request must have brought is said without the scanning code: a header line of the request
head with a value, and credentials behind the word `Basic`. An output is `Allowed` when the store
that was asked was open and the head has the token, or when the password in the head was verified
and the store that was asked gives its user the tag.
-/

namespace BeaverMQ.Http

open Amqp (ascii copyStr)
open List

/-! ## What a request brings -/

/-- A line of the head is `name`, in any case, then blanks, then `value`. -/
def HasHeader (head name value : Bytes) : Prop :=
  ∃ before written spaces after : Bytes, head = before ++ (written ++ (spaces ++ (value ++ after))) ∧
    (before = [] ∨ before.getLast? = some 10) ∧ written.map lower = name.map lower ∧
    (∀ c ∈ spaces, c = 32) ∧ (∀ c ∈ value, c ≠ 13 ∧ c ≠ 10) ∧
    (∀ c ∈ after.head?, c = 13 ∨ c = 10)

/-- The head has Basic credentials for `user` with `pass`, which is cut to 255 bytes. -/
def CarriesBasic (head user pass : Bytes) : Prop :=
  ∃ scheme spaces b64 plain rest : Bytes,
    HasHeader head (ascii "Authorization:") (scheme ++ (spaces ++ b64)) ∧
    scheme.map lower = (ascii "Basic").map lower ∧ (∀ c ∈ spaces, c = 32) ∧
    b64Decode 300 b64 = some plain ∧ cstr plain = user ++ 58 :: rest ∧ 58 ∉ user ∧
    pass = copyStr 256 rest

/-! ## Scanning -/

theorem scanHeader_eq_some {name s v : Bytes} {slack : Nat} {atStart : Bool}
    (h : scanHeader name slack atStart s = some v) :
    ∃ before written : Bytes, s = before ++ (written ++ v) ∧
      written.map lower = name.map lower ∧
      (before = [] ∧ atStart = true ∨ before.getLast? = some 10) := by
  induction s generalizing atStart with
  | nil => cases h
  | cons c rest ih =>
    rw [scanHeader] at h
    split at h
    · -- the header starts here
      rename_i hHere
      cases h
      simp only [Bool.and_eq_true] at hHere
      refine ⟨[], (c :: rest).take name.length, ?_, ?_, .inl ⟨rfl, hHere.1.2⟩⟩
      · rw [nil_append, take_append_drop]
      · exact of_decide_eq_true hHere.2
    · obtain ⟨before, written, hRest, hWritten, hLine⟩ := ih h
      refine ⟨c :: before, written, by rw [hRest, cons_append], hWritten, .inr ?_⟩
      rcases hLine with ⟨rfl, hStart⟩ | hLast
      · rw [of_decide_eq_true hStart]
        rfl
      · rw [getLast?_cons, hLast]
        rfl

theorem skipSpaces_spec (s : Bytes) :
    ∃ spaces : Bytes, s = spaces ++ skipSpaces s ∧ ∀ c ∈ spaces, c = 32 := by
  refine ⟨s.takeWhile (· = 32), (takeWhile_append_dropWhile ..).symm, fun c hMem => ?_⟩
  simpa using mem_takeWhile_imp hMem

theorem lineOf_spec (s : Bytes) :
    ∃ after : Bytes, s = lineOf s ++ after ∧ (∀ c ∈ lineOf s, c ≠ 13 ∧ c ≠ 10) ∧
      ∀ c ∈ after.head?, c = 13 ∨ c = 10 := by
  refine ⟨s.dropWhile fun c => c ≠ 13 && c ≠ 10, (takeWhile_append_dropWhile ..).symm, ?_, ?_⟩
  · intro c hMem
    simpa using mem_takeWhile_imp hMem
  · intro c hMem
    have hNot := head?_dropWhile_not (fun c : UInt8 => c ≠ 13 && c ≠ 10) s
    rw [Option.mem_def] at hMem
    rw [hMem] at hNot
    by_cases hCr : c = 13
    · exact .inl hCr
    · simp [hCr] at hNot
      exact .inr hNot

/-- What is behind the name, without blanks and to the end of the line, is the value of the
header. -/
theorem hasHeader_of_scan {name head v : Bytes} {slack : Nat}
    (h : scanHeader name slack true head = some v) :
    HasHeader head name (lineOf (skipSpaces v)) := by
  obtain ⟨before, written, hHead, hWritten, hLine⟩ := scanHeader_eq_some h
  obtain ⟨spaces, hSpaces, hBlank⟩ := skipSpaces_spec v
  obtain ⟨after, hAfter, hValue, hEnd⟩ := lineOf_spec (skipSpaces v)
  refine ⟨before, written, spaces, after, ?_, hLine.imp And.left id, hWritten, hBlank, hValue, hEnd⟩
  rw [← hAfter, ← hSpaces, ← hHead]

theorem foldl_or_eq_zero (xs : List (UInt8 × UInt8)) (d : UInt8) :
    xs.foldl (fun d xy => d ||| (xy.1 ^^^ xy.2)) d = 0 ↔ d = 0 ∧ ∀ xy ∈ xs, xy.1 = xy.2 := by
  induction xs generalizing d with
  | nil => simp
  | cons xy xs ih =>
    rw [foldl_cons, ih, forall_mem_cons, UInt8.or_eq_zero_iff, UInt8.xor_eq_zero_iff,
      and_assoc]

theorem eq_of_ctMemcmp {a b : Bytes} (hLen : a.length = b.length) (hZero : ctMemcmp a b = 0) :
    a = b := by
  obtain ⟨-, hAll⟩ := (foldl_or_eq_zero _ 0).mp hZero
  refine ext_getElem hLen fun i hi hj => ?_
  have hMem : (a[i], b[i]) ∈ a.zip b := by
    rw [mem_iff_getElem]
    exact ⟨i, by simpa using ⟨hi, hj⟩, by simp⟩
  exact hAll _ hMem

/-- **A request passes as the bootstrap only with the token.** -/
theorem hasHeader_of_bootstrapToken {token head : Bytes} (h : hasBootstrapToken token head = true) :
    token ≠ [] ∧ HasHeader head (ascii "X-Bootstrap-Token:") token := by
  unfold hasBootstrapToken at h
  split at h
  · cases h
  rename_i hToken
  refine ⟨hToken, ?_⟩
  split at h
  · cases h
  rename_i v hScan
  dsimp only at h
  split at h
  · cases h
  rename_i hLen
  have hEq := eq_of_ctMemcmp (not_not.mp hLen) (of_decide_eq_true h)
  rw [← hEq]
  exact hasHeader_of_scan hScan

theorem lineOf_scheme {x word : Bytes} (h : startsWithCase x word = true)
    (hWord : ∀ c ∈ word.map lower, c ≠ 13 ∧ c ≠ 10) :
    ∃ scheme spaces : Bytes, scheme.map lower = word.map lower ∧ (∀ c ∈ spaces, c = 32) ∧
      lineOf x = scheme ++ (spaces ++ lineOf (skipSpaces (x.drop word.length))) := by
  have hTake : (x.take word.length).map lower = word.map lower := of_decide_eq_true h
  obtain ⟨spaces, hDrop, hSpaces⟩ := skipSpaces_spec (x.drop word.length)
  refine ⟨x.take word.length, spaces, hTake, hSpaces, ?_⟩
  have hNoEnd : ∀ c ∈ x.take word.length, (c ≠ 13 && c ≠ 10) = true := by
    intro c hMem
    have hLower := hWord (lower c) (hTake ▸ mem_map_of_mem hMem)
    have hKeep : ∀ d : UInt8, c = d → lower d = d → lower c = d := fun d hc hd => hc ▸ hd
    simp only [ne_eq, Bool.and_eq_true, decide_eq_true_eq]
    exact ⟨fun hc => hLower.1 (hKeep 13 hc rfl), fun hc => hLower.2 (hKeep 10 hc rfl)⟩
  have hBlank : ∀ c ∈ spaces, (c ≠ 13 && c ≠ 10) = true := by
    intro c hMem
    rw [hSpaces c hMem]
    decide
  have hSplit : x = x.take word.length ++ (spaces ++ skipSpaces (x.drop word.length)) := by
    rw [← hDrop, take_append_drop]
  conv_lhs => rw [lineOf, hSplit]
  rw [takeWhile_append_of_pos hNoEnd, takeWhile_append_of_pos hBlank]
  rfl

theorem split_at_colon {s : Bytes} (h : (s.takeWhile (· ≠ 58)).length < s.length) :
    s = s.takeWhile (· ≠ 58) ++ 58 :: s.drop ((s.takeWhile (· ≠ 58)).length + 1) := by
  induction s with
  | nil => cases h
  | cons c rest ih =>
    by_cases hColon : c = 58
    · subst hColon
      rfl
    rw [takeWhile_cons_of_pos (by simpa using hColon)] at h ⊢
    rw [cons_append, length_cons, drop_succ_cons]
    exact congrArg (c :: ·) (ih (by simpa using h))

/-- **Credentials that are found are in the head.** -/
theorem carriesBasic_of_credentials {head user rest : Bytes}
    (h : basicCredentials head = some (user, rest)) :
    CarriesBasic head user (copyStr 256 rest) := by
  unfold basicCredentials at h
  split at h
  · cases h
  rename_i v hScan
  dsimp only at h
  split at h
  · cases h
  rename_i hScheme
  split at h
  · cases h
  rename_i plain hPlain
  split at h
  · cases h
  rename_i hColon
  split at h
  · cases h
  obtain ⟨rfl, rfl⟩ := Prod.mk.inj (Option.some.inj h)
  have hBasic : startsWithCase (skipSpaces v) (ascii "Basic") = true := by
    simpa using hScheme
  obtain ⟨scheme, spaces, hWord, hSpaces, hLine⟩ := lineOf_scheme hBasic (by decide +kernel)
  refine ⟨scheme, spaces, _, plain, _, ?_, hWord, hSpaces, hPlain, ?_, ?_, rfl⟩
  · have hHeader := hasHeader_of_scan hScan
    rwa [hLine] at hHeader
  · exact split_at_colon (by omega)
  · intro hMem
    simpa using mem_takeWhile_imp hMem

/-! ## What a callback puts out -/

/-- From `w` to `w'` some outputs with `ok` were logged in context `c`; what the authentication
works on is as it was. -/
structure Adds (c : Ctx) (ok : Output → Prop) (w w' : World) : Prop where
  log : ∃ outs : List Output, (∀ out ∈ outs, ok out) ∧
    w'.log = w.log ++ outs.map fun out => ⟨out, requestHead w.inbuf, c.asked, c.work⟩
  inbuf : w'.inbuf = w.inbuf
  pendingAuth : w'.pendingAuth = w.pendingAuth
  reading : w'.reading = w.reading

section Adds

variable {c : Ctx} {ok : Output → Prop} {w w' w'' : World}

theorem Adds.of_same (hLog : w'.log = w.log) (hInbuf : w'.inbuf = w.inbuf)
    (hPending : w'.pendingAuth = w.pendingAuth) (hReading : w'.reading = w.reading) :
    Adds c ok w w' where
  log := ⟨[], fun _ hMem => absurd hMem not_mem_nil, by rw [hLog]; exact (append_nil _).symm⟩
  inbuf := hInbuf
  pendingAuth := hPending
  reading := hReading

theorem Adds.trans (h : Adds c ok w w') (h' : Adds c ok w' w'') : Adds c ok w w'' := by
  obtain ⟨outs, hOk, hLog⟩ := h.log
  obtain ⟨outs', hOk', hLog'⟩ := h'.log
  refine ⟨⟨outs ++ outs', ?_, ?_⟩, h'.inbuf.trans h.inbuf, h'.pendingAuth.trans h.pendingAuth,
    h'.reading.trans h.reading⟩
  · intro out hMem
    exact (mem_append.mp hMem).elim (hOk out) (hOk' out)
  · rw [hLog', hLog, h.inbuf, append_assoc, map_append]

theorem adds_note {out : Output} (hOk : ok out) : Adds c ok w (w.note c out) where
  log := ⟨[out], fun _ hMem => mem_singleton.mp hMem ▸ hOk, rfl⟩
  inbuf := rfl
  pendingAuth := rfl
  reading := rfl

theorem adds_respond {out : Output} (hOk : ok out) : Adds c ok w (respond c w out) := by
  unfold respond
  split
  · exact .of_same rfl rfl rfl rfl
  dsimp only
  split
  · have hFlag : Adds c ok w { w with responded := true } := .of_same rfl rfl rfl rfl
    exact hFlag.trans (adds_note hOk)
  · exact .of_same rfl rfl rfl rfl

theorem adds_respond_only (out : Output) : Adds c (fun o => o = out) w (respond c w out) :=
  adds_respond rfl

theorem adds_cfgApply {op : AuthDb.Mutation} (hOk : ok (.cfgApply op)) :
    Adds c ok w (cfgApply c w op).1 := by
  unfold cfgApply
  dsimp only
  split
  · exact adds_note hOk
  split
  · exact adds_note hOk
  · exact (adds_note hOk).trans (.of_same rfl rfl rfl rfl)

/-- What the dispatcher does with a request: nothing, one answer, or a change and one answer. -/
inductive Answers (c : Ctx) (ok : Output → Prop) (w : World) : World → Prop
  | idle (hDone : w.closing = true ∨ w.responded = true) : Answers c ok w w
  | answer {out : Output} (hOk : ok out) : Answers c ok w (respond c w out)
  | refuse (hSilent : w.closing = false ∧ w.responded = false) (hOk : ok .unauthorized) :
      Answers c ok w (respond401 c w)
  | change {op : AuthDb.Mutation} {out : Output}
      (hSilent : w.closing = false ∧ w.responded = false) (hApply : ok (.cfgApply op))
      (hOk : ok out) : Answers c ok w (respond c (cfgApply c w op).1 out)

theorem Answers.adds (h : Answers c ok w w') : Adds c ok w w' := by
  cases h with
  | idle => exact .of_same rfl rfl rfl rfl
  | answer hOk => exact adds_respond hOk
  | refuse _ hOk =>
    unfold respond401
    split
    · exact adds_note hOk
    · exact .of_same rfl rfl rfl rfl
  | change _ hApply hOk => exact (adds_cfgApply hApply).trans (adds_respond hOk)

theorem answers_serveStatic (path : Bytes) (hError : ∀ n m, ok (.error n m))
    (hFile : ∀ n, ok (.file n)) : Answers c ok w (serveStatic c w path) := by
  unfold serveStatic
  dsimp only
  generalize (if path = ascii "/" then ascii "/index.html" else path) = rel
  split
  · exact .answer (hError ..)
  split
  · exact .answer (hError ..)
  · exact .answer (hFile _)

theorem respondCfgResult_eq (r : World × Int) (hError : ∀ n m, ok (.error n m))
    (hApplied : ok .applied) (badRequest : Bytes) :
    ∃ out, ok out ∧ respondCfgResult c r badRequest = respond c r.1 out := by
  unfold respondCfgResult
  split
  · exact ⟨_, hError .., rfl⟩
  split
  · exact ⟨_, hError .., rfl⟩
  · exact ⟨_, hApplied, rfl⟩

theorem answers_handleMgmt {method path body : Bytes}
    (hSilent : w.closing = false ∧ w.responded = false) (hError : ∀ n m, ok (.error n m))
    (hApplied : ok .applied) (hApply : ∀ op, ok (.cfgApply op))
    (h : handleMgmt c w method path body = some w') : Answers c ok w w' := by
  have hChange : ∀ op badRequest, Answers c ok w
      (respondCfgResult c (cfgApply c w op) badRequest) := by
    intro op badRequest
    obtain ⟨out, hOk, hEq⟩ := respondCfgResult_eq (c := c) (cfgApply c w op) hError hApplied badRequest
    rw [hEq]
    exact .change hSilent (hApply op) hOk
  unfold handleMgmt at h
  split at h
  · obtain ⟨⟨change, badRequest⟩, -, rfl⟩ := Option.map_eq_some_iff.mp h
    cases change with
    | none =>
      obtain ⟨out, hOk, hEq⟩ := respondCfgResult_eq (c := c) (w, -1) hError hApplied badRequest
      dsimp only
      rw [hEq]
      exact .answer hOk
    | some op => exact hChange op badRequest
  · split at h
    · obtain ⟨change, -, rfl⟩ := Option.map_eq_some_iff.mp h
      cases change with
      | inl message => exact .answer (hError ..)
      | inr op => exact hChange op _
    · cases h

end Adds

def Permits (level : Int) : Output → Prop
  | .cfgApply _ => 2 ≤ level
  | .applied => 2 ≤ level
  | .document _ => 1 ≤ level
  | _ => True

/-- **The dispatcher keeps to the level.** -/
theorem answers_httpDispatchLevel (c : Ctx) (w : World) (method path : Bytes) (level : Int)
    (user : Bytes) :
    Answers c (Permits level) w (httpDispatchLevel c w method path level user) := by
  have hError : ∀ n m, Answers c (Permits level) w (respondError c w n m) :=
    fun n m => .answer trivial
  unfold httpDispatchLevel
  split
  · rename_i hDone
    exact .idle (Bool.or_eq_true .. ▸ hDone)
  rename_i hSilent
  rw [Bool.or_eq_true, not_or, Bool.not_eq_true, Bool.not_eq_true] at hSilent
  split
  · exact .refuse hSilent trivial
  split
  · exact hError ..
  split
  · exact hError ..
  rename_i hZero _ hNegative
  split
  · -- a change
    split
    · exact hError ..
    rename_i hOne
    have hAdmin : 2 ≤ level := by omega
    split
    · rename_i hMgmt
      exact answers_handleMgmt hSilent (fun _ _ => trivial) hAdmin (fun _ => hAdmin) hMgmt
    split
    · exact hError ..
    · exact hError ..
  split
  · exact hError ..
  -- a document or a file
  split
  · exact .answer (show 1 ≤ level by omega)
  split
  · exact hError ..
  · exact answers_serveStatic path (fun _ _ => trivial) fun _ => trivial

/-! ## The gate -/

/-- The store that was asked was open, or there was none, and the head has the token; or the
password in the head was verified against the hash that the store had for its user, and the
store that was asked at the end gives that user a tag. -/
def Entitled (cfg : Cfg) (head : Bytes) (asked : Option AuthDb.Store) (work : Option AuthWork)
    (tagged : UInt32 → Prop) : Prop :=
  ((∀ s, asked = some s → AuthDb.authstoreIsOpen s = true) ∧ cfg.token ≠ [] ∧
    HasHeader head (ascii "X-Bootstrap-Token:") cfg.token) ∨
  ∃ (w : AuthWork) (s : AuthDb.Store) (hash : Bytes), work = some w ∧ asked = some s ∧
    CarriesBasic head w.user w.pass ∧ lookupHash w.asked w.user = some hash ∧
    cfg.passwordMatches hash w.pass = true ∧ tagged (userTags s w.user)

def Administrator (tags : UInt32) : Prop := tags &&& authTagAdministrator ≠ 0

def Management (tags : UInt32) : Prop := Administrator tags ∨ tags &&& authTagManagement ≠ 0

/-- Changes are for administrators, and documents other than the liveness probe for those with a
tag. -/
def Allowed (cfg : Cfg) (e : Entry) : Prop :=
  match e.output with
  | .cfgApply _ => Entitled cfg e.head e.asked e.work Administrator
  | .applied => Entitled cfg e.head e.asked e.work Administrator
  | .document d => d = .healthz ∨ Entitled cfg e.head e.asked e.work Management
  | _ => True

variable {cfg : Cfg} {w w' : World}

def Earned (c : Ctx) (head : Bytes) (level : Int) : Prop :=
  (2 ≤ level → Entitled c.cfg head c.asked c.work Administrator) ∧
    (1 ≤ level → Entitled c.cfg head c.asked c.work Management)

theorem allowed_of_permits {c : Ctx} {head : Bytes} {level : Int} (hEarned : Earned c head level)
    {out : Output} (hPermits : Permits level out) : Allowed c.cfg ⟨out, head, c.asked, c.work⟩ := by
  cases out with
  | cfgApply | applied => exact hEarned.1 hPermits
  | document d => exact .inr (hEarned.2 hPermits)
  | _ => trivial

/-- Everything in the log is allowed, and a verification that runs is for the credentials of the
request at the front of the buffer, to which no bytes are added meanwhile. -/
structure Gate (cfg : Cfg) (w : World) : Prop where
  log : ∀ e ∈ w.log, Allowed cfg e
  work : ∀ work, w.pendingAuth = some work → w.reading = false ∧
    CarriesBasic (requestHead w.inbuf) work.user work.pass ∧
    work.stored = lookupHash work.asked work.user

theorem Gate.adds {c : Ctx} {ok : Output → Prop} (h : Gate c.cfg w) (hAdds : Adds c ok w w')
    (hOk : ∀ out, ok out → Allowed c.cfg ⟨out, requestHead w.inbuf, c.asked, c.work⟩) :
    Gate c.cfg w' := by
  obtain ⟨outs, hOuts, hLog⟩ := hAdds.log
  constructor
  · intro e hMem
    rw [hLog, mem_append] at hMem
    rcases hMem with hMem | hMem
    · exact h.log e hMem
    · obtain ⟨out, hOut, rfl⟩ := mem_map.mp hMem
      exact hOk out (hOuts out hOut)
  · rw [hAdds.pendingAuth, hAdds.reading, hAdds.inbuf]
    exact h.work

theorem gate_respondError {c : Ctx} (h : Gate c.cfg w) (status : Nat) (message : Bytes) :
    Gate c.cfg (respondError c w status message) :=
  h.adds (adds_respond_only (.error status message)) (by
    rintro _ rfl
    trivial)

theorem gate_httpDispatchLevel {c : Ctx} (h : Gate c.cfg w) {level : Int}
    (hEarned : Earned c (requestHead w.inbuf) level) (method path user : Bytes) :
    Gate c.cfg (httpDispatchLevel c w method path level user) :=
  h.adds (answers_httpDispatchLevel c w method path level user).adds
    fun _ => allowed_of_permits hEarned

theorem earned_low (c : Ctx) (head : Bytes) {level : Int} (hLow : level ≤ 0) :
    Earned c head level :=
  ⟨fun h => absurd h (by omega), fun h => absurd h (by omega)⟩

/-- What a request is answered in. -/
abbrev World.ctx (cfg : Cfg) (o : Oracle) (w : World) : Ctx := { cfg, oracle := o, asked := w.store }

/-- `mgmt_auth_start` hands out level 3 in the bootstrap window and to the token only, and starts
a verification for the credentials of the head only. -/
theorem gate_mgmtAuthStart (h : Gate cfg w) (o : Oracle) (method path : Bytes) :
    Gate cfg (mgmtAuthStart cfg o w method path (requestHead w.inbuf)) := by
  have hAfter : Gate cfg { w with store := w.store.map o.between } := ⟨h.log, h.work⟩
  unfold mgmtAuthStart
  dsimp only
  have hLow : ∀ level : Int, level ≤ 0 → Gate cfg (httpDispatchLevel
      (w.ctx cfg o) { w with store := w.store.map o.between } method path
      level []) := by
    intro level hLevel
    exact gate_httpDispatchLevel (c := w.ctx cfg o) hAfter
      (earned_low _ _ hLevel) ..
  have hWindow : (∀ s, w.store = some s → AuthDb.authstoreIsOpen s = true) →
      Gate cfg (httpDispatchLevel (w.ctx cfg o)
        { w with store := w.store.map o.between } method path
        (if hasBootstrapToken cfg.token (requestHead w.inbuf) = true then 3 else 0) []) := by
    intro hOpen
    split
    · rename_i hToken
      have hEntitled : ∀ tagged, Entitled cfg (requestHead w.inbuf) w.store none tagged :=
        fun tagged => .inl ⟨hOpen, hasHeader_of_bootstrapToken hToken⟩
      exact gate_httpDispatchLevel (c := w.ctx cfg o) hAfter
        ⟨fun _ => hEntitled _, fun _ => hEntitled _⟩ ..
    · exact hLow 0 le_rfl
  split
  · rename_i hNone
    exact hWindow fun s hSome => absurd (hNone.symm.trans hSome) nofun
  rename_i s hStore
  split
  · rename_i hOpen
    exact hWindow fun s' hSome => Option.some.inj (hStore.symm.trans hSome) ▸ hOpen
  split
  · exact hLow 0 le_rfl
  rename_i user pass hCredentials
  split
  · exact hLow (-2) (by decide)
  split
  · exact gate_respondError (c := w.ctx cfg o) hAfter ..
  split
  · -- the verification is under way, and reading has stopped
    refine ⟨h.log, fun work hWork => ?_⟩
    cases hWork
    exact ⟨rfl, carriesBasic_of_credentials hCredentials, rfl⟩
  have hStopped : Gate cfg { w with store := w.store.map o.between, reading := false } :=
    ⟨h.log, fun work hWork => ⟨rfl, (h.work work hWork).2⟩⟩
  exact gate_respondError (c := w.ctx cfg o) hStopped ..

theorem gate_handleRequest (h : Gate cfg w) (o : Oracle) : Gate cfg (handleRequest cfg o w) := by
  unfold handleRequest
  dsimp only
  split
  · exact gate_respondError (c := w.ctx cfg o) h ..
  split
  · refine Gate.adds (c := w.ctx cfg o) h
      (adds_respond_only (.document .healthz)) ?_
    rintro _ rfl
    exact .inl rfl
  · exact gate_mgmtAuthStart h o ..

theorem gate_onHttpRead (h : Gate cfg w) (hReading : w.reading = true) (o : Oracle)
    (data : Bytes) : Gate cfg (onHttpRead cfg o w data) := by
  -- while bytes are read no verification runs
  have hMore : Gate cfg { w with inbuf := w.inbuf ++ data } := by
    refine ⟨h.log, fun work hWork => ?_⟩
    have hStopped := (h.work work hWork).1
    rw [hReading] at hStopped
    cases hStopped
  have hError : ∀ w', Gate cfg w' → ∀ status message,
      Gate cfg (respondError (w.ctx cfg o) w' status message) :=
    fun w' h' status message =>
      gate_respondError (c := w.ctx cfg o) h' status message
  unfold onHttpRead
  dsimp only
  split
  · exact hError _ h ..
  split
  · exact hError _ hMore ..
  split
  · exact hMore
  split
  · exact hError _ hMore ..
  split
  · exact hError _ hMore ..
  split
  · exact gate_handleRequest hMore o
  · exact hMore

theorem administrator_of_level {tags : UInt32} (h : 2 ≤ mgmtLevelFromTags tags) :
    Administrator tags := by
  unfold mgmtLevelFromTags at h
  split at h
  · rename_i hTag
    exact hTag
  · split at h <;> omega

theorem management_of_level {tags : UInt32} (h : 1 ≤ mgmtLevelFromTags tags) : Management tags := by
  unfold mgmtLevelFromTags at h
  split at h
  · rename_i hTag
    exact .inl hTag
  split at h
  · rename_i hTag
    exact .inr hTag
  · omega

/-- The end of a verification: the level comes from a password that matched and the tags that the
user has now. -/
theorem gate_httpAuthAfterCb (h : Gate cfg w) {work : AuthWork} (hWork : w.pendingAuth = some work)
    (o : Oracle) : Gate cfg (httpAuthAfterCb cfg o w work) := by
  obtain ⟨-, hCarries, hStored⟩ := h.work work hWork
  have hAfter : Gate cfg { w with pendingAuth := none, store := w.store.map o.between } :=
    ⟨h.log, fun _ hNone => (nomatch hNone)⟩
  unfold httpAuthAfterCb
  dsimp only
  split
  · rename_i hResult
    obtain ⟨hash, hHash, hMatches⟩ : ∃ hash, lookupHash work.asked work.user = some hash ∧
        cfg.passwordMatches hash work.pass = true := by
      rw [AuthWork.result, hStored] at hResult
      cases hLookup : lookupHash work.asked work.user with
      | none =>
        rw [hLookup] at hResult
        cases hResult
      | some hash =>
        rw [hLookup] at hResult
        exact ⟨hash, rfl, ((Bool.and_eq_true _ _).mp hResult).2⟩
    -- without a store there are no tags
    have hEarned : Earned { cfg, oracle := o, asked := w.store, work := some work }
        (requestHead w.inbuf)
        (mgmtLevelFromTags (w.store.elim 0 fun s => userTags s work.user)) := by
      cases hStore : w.store with
      | none => exact earned_low _ _ (show mgmtLevelFromTags 0 ≤ 0 by decide)
      | some s =>
        constructor
        · intro hLevel
          exact .inr ⟨work, s, hash, rfl, rfl, hCarries, hHash, hMatches, administrator_of_level hLevel⟩
        · intro hLevel
          exact .inr ⟨work, s, hash, rfl, rfl, hCarries, hHash, hMatches, management_of_level hLevel⟩
    exact gate_httpDispatchLevel (c := { cfg, oracle := o, asked := w.store, work := some work })
      hAfter hEarned ..
  · exact gate_httpDispatchLevel (c := { cfg, oracle := o, asked := w.store, work := some work })
      hAfter (earned_low _ _ le_rfl) ..

theorem gate_step {ev : Event} (hStep : step cfg w ev = some w') (h : Gate cfg w) : Gate cfg w' := by
  cases ev with
  | read data o =>
    rw [step] at hStep
    split at hStep <;> cases hStep
    rename_i hReads
    simp only [Bool.and_eq_true] at hReads
    exact gate_onHttpRead h hReads.1 o data
  | hangUp =>
    cases hStep
    exact ⟨h.log, h.work⟩
  | handlesClosed =>
    rw [step] at hStep
    split at hStep <;> cases hStep
    exact ⟨h.log, fun _ hNone => (nomatch hNone)⟩
  | authDone o =>
    obtain ⟨work, hWork, rfl⟩ := Option.map_eq_some_iff.mp hStep
    exact gate_httpAuthAfterCb h hWork o
  | storeChanges s =>
    cases hStep
    exact ⟨h.log, h.work⟩

/-- **The gate of the management API.** Whatever bytes arrive in whatever pieces, whenever a
verification ends and however the store changes meanwhile: `cfg_apply` is called only for a
request that is entitled as an administrator, and a document other than the liveness probe is
returned only for one that is entitled to read. -/
theorem gate_run (cfg : Cfg) (store : Option AuthDb.Store) {w : World}
    (hReach : Run.Reach (step cfg) (fun _ _ _ => True) (start store) w) :
    ∀ e ∈ w.log, Allowed cfg e := by
  have hStart : Gate cfg (start store) :=
    ⟨fun e hMem => absurd hMem not_mem_nil, fun _ hNone => (nomatch hNone)⟩
  have hGate : Gate cfg w :=
    hReach.invariant (P := Gate cfg) (fun _ _ _ h hStep _ => gate_step hStep h) hStart
  exact hGate.log

/-! ### A request -/

/-- The user `a` is an administrator. -/
def gateStore : AuthDb.Store where
  users := [⟨⟨ascii "a", by decide, by decide⟩, ⟨ascii "h", by decide, by decide⟩, 1⟩]
  bootstrapCompleted := true

/-- The JSON object with the name `v`. -/
def nameBody : Bytes := ascii "\x7b\"name\":\"v\"\x7d"

def gateCfg : Cfg where
  jstr body key := if body = nameBody && key = ascii "name" then some (ascii "v") else none
  passwordMatches hash pass := hash = ascii "h" && pass = ascii "b"

/-- The request of `a` with password `b` comes in two pieces, and the hash takes its time. -/
def gateEvents : List Event :=
  [.read (ascii "POST /api/vhosts HTTP/1.1\r\nAuthorization: Ba") {},
    .read (ascii "sic YTpi\r\nContent-Length: 12\r\n\r\n" ++ nameBody) {},
    .storeChanges (some { gateStore with vhosts := [⟨ascii "/", by decide, by decide⟩] }),
    .authDone {}]

/-- A change is applied, by an administrator. -/
theorem gate_run_applies : ∃ w : World,
    (w.log.map Entry.output = [.cfgApply (.addVhost (ascii "v")), .applied]) ∧
      ∀ e ∈ w.log, Allowed gateCfg e := by
  obtain ⟨w, hReach, hLog⟩ : ∃ w, Run.Reach (step gateCfg) (fun _ _ _ => True)
      (start (some gateStore)) w ∧
      w.log.map Entry.output = [.cfgApply (.addVhost (ascii "v")), .applied] :=
    Run.exists_reach gateEvents (by decide +kernel)
  exact ⟨w, hLog, gate_run gateCfg (some gateStore) hReach⟩

end BeaverMQ.Http
