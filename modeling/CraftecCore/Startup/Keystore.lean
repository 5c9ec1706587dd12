import CraftecCore.Library.Bytes
import CraftecCore.Library.Run

/-!
# Keystore — the signing key of a service, over restarts

`load_or_generate_keypair` looks whether the key file exists, and then reads it or writes a new one:
the directory is created, the file is opened, which empties it, and the secret is written.  Each of
these is a step of its own, which may fail or be the last one that the process takes; other
processes may take steps in between.  A look that fails finds no file, and a new key is then written
over the old one.
-/

namespace CraftecCore
namespace Startup

open Transition

/-! ## The source functions -/

inductive KeystoreError
  | readError (err : String)
  | writeError (err : String)
  | invalidFormat
  | createDirError (err : String)
  deriving DecidableEq, Repr

structure SigningKeypair where
  signingKey : Bytes 32
  verifyingKey : Bytes 32
  deriving DecidableEq, Repr

/-- Create from raw secret key bytes; the public key is derived by the signature package. -/
def SigningKeypair.fromSecretBytes (derive : Bytes 32 → Bytes 32) (secret : Bytes 32) :
    SigningKeypair :=
  { signingKey := secret
    verifyingKey := derive secret }

/-- The keypair in a key file, which holds the 32-byte secret key. -/
def keyOfFile (derive : Bytes 32 → Bytes 32) (bytes : List UInt8) :
    Except KeystoreError SigningKeypair :=
  match Bytes.ofList? 32 bytes with
  | none => .error .invalidFormat
  | some secret => .ok (SigningKeypair.fromSecretBytes derive secret)

/-- How the operations answer by which a file is written whole. -/
inductive WriteAnswer
  | done
  /-- The directory cannot be created. -/
  | noDir (err : String)
  | notOpened (err : String)
  /-- So many bytes are written. -/
  | stopped (count : ℕ) (err : String)
  deriving DecidableEq, Repr

def overwrite (bytes content : List UInt8) : List UInt8 :=
  bytes ++ content.drop bytes.length

/-- The file after `fs::write`, which opens it, so that it is empty, and writes the bytes. -/
def fileAfter (answer : WriteAnswer) (bytes : List UInt8) (file : Option (List UInt8)) :
    Option (List UInt8) :=
  match answer with
  | .done => some (overwrite bytes [])
  | .noDir _ => file
  | .notOpened _ => file
  | .stopped count _ => some (overwrite (bytes.take count) [])

/-- Save raw keypair bytes to a file, creating parent directories as needed. -/
def saveKeypairBytes (answer : WriteAnswer) (bytes : List UInt8) (file : Option (List UInt8)) :
    Except KeystoreError Unit × Option (List UInt8) :=
  (match answer with
    | .done => .ok ()
    | .noDir err => .error (.createDirError err)
    | .notOpened err => .error (.writeError err)
    | .stopped _ err => .error (.writeError err),
    fileAfter answer bytes file)

/-- The file behind `path.exists()`, which is false as well when looking at the file fails. -/
def ifExists (seen : Bool) (file : Option (List UInt8)) : Option (List UInt8) :=
  if seen then file else none

/-- Load or generate a signing keypair: the drawn secret is used if the file does not exist. -/
def loadOrGenerateKeypair (derive : Bytes 32 → Bytes 32) (secret : Bytes 32) (seen : Bool)
    (readAnswer : Except String Unit) (answer : WriteAnswer) (file : Option (List UInt8)) :
    Except KeystoreError SigningKeypair × Option (List UInt8) :=
  match ifExists seen file with
  | some bytes =>
      match readAnswer with
      | .error err => (.error (.readError err), file)
      | .ok () => (keyOfFile derive bytes, file)
  | none =>
      let keypair := SigningKeypair.fromSecretBytes derive secret
      match saveKeypairBytes answer keypair.signingKey.bytes file with
      | (.error err, file') => (.error err, file')
      | (.ok (), file') => (.ok keypair, file')

/-! ## Calls that overlap -/

/-- A call that has not returned, by what it does next. -/
inductive KeyCall
  | read
  | createDir (keypair : SigningKeypair)
  | openFile (keypair : SigningKeypair)
  | write (keypair : SigningKeypair)

structure KeyState where
  /-- The content of the key file. -/
  file : Option (List UInt8)
  calls : List KeyCall
  returned : List (Except KeystoreError SigningKeypair)

inductive KeyEvent
  | start (seen : Bool) (secret : Bytes 32)
  | read (answer : Except String Unit)
  | createDir (answer : Except String Unit)
  | openFile (answer : Except String Unit)
  /-- The bytes are written, or only so many of them. -/
  | write (answer : Except (ℕ × String) Unit)
  | crash

def KeyState.finish (s : KeyState) (calls : List KeyCall)
    (result : Except KeystoreError SigningKeypair) : KeyState :=
  { s with
    calls := calls
    returned := s.returned ++ [result] }

/-- One step of one of the calls, or the end of its process. -/
inductive KeyNext (derive : Bytes 32 → Bytes 32) : KeyState → KeyEvent → KeyState → Prop
  | found {s : KeyState} {seen : Bool} {bytes : List UInt8} (secret : Bytes 32) :
      ifExists seen s.file = some bytes →
        KeyNext derive s (.start seen secret) { s with calls := s.calls ++ [.read] }
  | missing {s : KeyState} {seen : Bool} (secret : Bytes 32) :
      ifExists seen s.file = none → KeyNext derive s (.start seen secret)
        { s with
          calls := s.calls ++ [.createDir (SigningKeypair.fromSecretBytes derive secret)] }
  | readFailed {s : KeyState} {before after : List KeyCall} (err : String) :
      s.calls = before ++ .read :: after →
        KeyNext derive s (.read (.error err)) (s.finish (before ++ after) (.error (.readError err)))
  | read {s : KeyState} {before after : List KeyCall} {bytes : List UInt8} :
      s.calls = before ++ .read :: after → s.file = some bytes →
        KeyNext derive s (.read (.ok ())) (s.finish (before ++ after) (keyOfFile derive bytes))
  | createDirFailed {s : KeyState} {before after : List KeyCall} {keypair : SigningKeypair}
      (err : String) :
      s.calls = before ++ .createDir keypair :: after →
        KeyNext derive s (.createDir (.error err))
          (s.finish (before ++ after) (.error (.createDirError err)))
  | createDir {s : KeyState} {before after : List KeyCall} {keypair : SigningKeypair} :
      s.calls = before ++ .createDir keypair :: after →
        KeyNext derive s (.createDir (.ok ()))
          { s with calls := before ++ .openFile keypair :: after }
  | openFailed {s : KeyState} {before after : List KeyCall} {keypair : SigningKeypair}
      (err : String) :
      s.calls = before ++ .openFile keypair :: after →
        KeyNext derive s (.openFile (.error err))
          (s.finish (before ++ after) (.error (.writeError err)))
  | opened {s : KeyState} {before after : List KeyCall} {keypair : SigningKeypair} :
      s.calls = before ++ .openFile keypair :: after →
        KeyNext derive s (.openFile (.ok ()))
          { s with
            file := some []
            calls := before ++ .write keypair :: after }
  | stopped {s : KeyState} {before after : List KeyCall} {keypair : SigningKeypair}
      {content : List UInt8} (count : ℕ) (err : String) :
      s.calls = before ++ .write keypair :: after → s.file = some content →
        KeyNext derive s (.write (.error (count, err)))
          ({ s with
            file := some (overwrite (keypair.signingKey.bytes.take count) content) }.finish
              (before ++ after) (.error (.writeError err)))
  | written {s : KeyState} {before after : List KeyCall} {keypair : SigningKeypair}
      {content : List UInt8} :
      s.calls = before ++ .write keypair :: after → s.file = some content →
        KeyNext derive s (.write (.ok ()))
          ({ s with file := some (overwrite keypair.signingKey.bytes content) }.finish
            (before ++ after) (.ok keypair))
  | crash {s : KeyState} {before after : List KeyCall} {call : KeyCall} :
      s.calls = before ++ call :: after →
        KeyNext derive s .crash { s with calls := before ++ after }
  -- the process may also end when so many bytes are written
  | crashWriting {s : KeyState} {before after : List KeyCall} {keypair : SigningKeypair}
      {content : List UInt8} (count : ℕ) :
      s.calls = before ++ .write keypair :: after → s.file = some content →
        KeyNext derive s .crash
          { s with
            file := some (overwrite (keypair.signingKey.bytes.take count) content)
            calls := before ++ after }

/-- Before the first call; the file may exist. -/
def Fresh (s : KeyState) : Prop :=
  s.calls = [] ∧ s.returned = []

/-- No call starts before the one before it has returned or ended with its process. -/
def Serial (s : KeyState) : KeyEvent → Prop
  | .start _ _ => s.calls = []
  | _ => True

/-- No look at the key file fails. -/
def KeyEvent.Seen : KeyEvent → Prop
  | .start seen _ => seen = true
  | _ => True

theorem file_of_ifExists {seen : Bool} {file : Option (List UInt8)} {bytes : List UInt8}
    (h : ifExists seen file = some bytes) : file = some bytes := by
  cases seen with
  | false => cases h
  | true => exact h

/-- The call that takes the next step, in front of those that wait. -/
theorem calls_cons (call : KeyCall) (waiting : List KeyCall) :
    call :: waiting = [] ++ call :: waiting :=
  rfl

/-- A call taken alone does what `load_or_generate_keypair` computes. -/
theorem run_loadOrGenerateKeypair (derive : Bytes 32 → Bytes 32) (secret : Bytes 32) (seen : Bool)
    (readAnswer : Except String Unit) (answer : WriteAnswer) {s : KeyState} (hidle : s.calls = []) :
    Run (fun t => t = s) (KeyNext derive) (fun s e => Serial s e ∧ (seen = true → e.Seen))
      { file := (loadOrGenerateKeypair derive secret seen readAnswer answer s.file).2
        calls := []
        returned := s.returned ++
          [(loadOrGenerateKeypair derive secret seen readAnswer answer s.file).1] } := by
  obtain ⟨file, calls, returned⟩ := s
  cases hidle
  have hrun : Run (fun t => t = (⟨file, [], returned⟩ : KeyState)) (KeyNext derive)
      (fun s e => Serial s e ∧ (seen = true → e.Seen)) ⟨file, [], returned⟩ := Run.start rfl
  have hfree : True ∧ (seen = true → True) := ⟨trivial, fun _ => trivial⟩
  unfold loadOrGenerateKeypair
  cases hfile : ifExists seen file with
  | some bytes =>
      have hread := hrun.step (e := KeyEvent.start seen secret) ⟨rfl, id⟩
        (KeyNext.found secret hfile)
      cases readAnswer with
      | error err =>
          have hlast := hread.step (e := KeyEvent.read (.error err)) hfree
            (KeyNext.readFailed err (calls_cons _ []))
          exact hlast
      | ok _ =>
          have hlast := hread.step (e := KeyEvent.read (.ok ())) hfree
            (KeyNext.read (calls_cons _ []) (file_of_ifExists hfile))
          exact hlast
  | none =>
      have hdir := hrun.step (e := KeyEvent.start seen secret) ⟨rfl, id⟩
        (KeyNext.missing secret hfile)
      cases answer with
      | noDir err =>
          have hlast := hdir.step (e := KeyEvent.createDir (.error err)) hfree
            (KeyNext.createDirFailed err (calls_cons _ []))
          exact hlast
      | notOpened err =>
          have hopen := hdir.step (e := KeyEvent.createDir (.ok ())) hfree
            (KeyNext.createDir (calls_cons _ []))
          have hlast := hopen.step (e := KeyEvent.openFile (.error err)) hfree
            (KeyNext.openFailed err (calls_cons _ []))
          exact hlast
      | stopped count err =>
          have hopen := hdir.step (e := KeyEvent.createDir (.ok ())) hfree
            (KeyNext.createDir (calls_cons _ []))
          have hwrite := hopen.step (e := KeyEvent.openFile (.ok ())) hfree
            (KeyNext.opened (calls_cons _ []))
          have hlast := hwrite.step (e := KeyEvent.write (.error (count, err))) hfree
            (KeyNext.stopped count err (calls_cons _ []) rfl)
          exact hlast
      | done =>
          have hopen := hdir.step (e := KeyEvent.createDir (.ok ())) hfree
            (KeyNext.createDir (calls_cons _ []))
          have hwrite := hopen.step (e := KeyEvent.openFile (.ok ())) hfree
            (KeyNext.opened (calls_cons _ []))
          have hlast := hwrite.step (e := KeyEvent.write (.ok ())) hfree
            (KeyNext.written (calls_cons _ []) rfl)
          exact hlast

/-! ## A key file that is there is kept -/

section Runs

variable {derive : Bytes 32 → Bytes 32} {s s' : KeyState} {e : KeyEvent}

theorem keyOfFile_bytes (derive : Bytes 32 → Bytes 32) (secret : Bytes 32) :
    keyOfFile derive secret.bytes = .ok (SigningKeypair.fromSecretBytes derive secret) := by
  simp [keyOfFile]

theorem keyOfFile_eq_ok {bytes : List UInt8} {keypair : SigningKeypair}
    (h : keyOfFile derive bytes = .ok keypair) : keypair.signingKey.bytes = bytes := by
  cases hsecret : Bytes.ofList? 32 bytes with
  | none => simp [keyOfFile, hsecret] at h
  | some secret =>
      have hkeypair : SigningKeypair.fromSecretBytes derive secret = keypair := by
        simpa [keyOfFile, hsecret] using h
      rw [← hkeypair]
      exact Bytes.ofList?_eq_some.1 hsecret

/-- The key file is there, calls only read it, and every key returned is the one in it. -/
structure KeyState.Settled (derive : Bytes 32 → Bytes 32) (bytes : List UInt8) (s : KeyState) :
    Prop where
  file : s.file = some bytes
  reading : ∀ call ∈ s.calls, call = .read
  returned : ∀ keypair, .ok keypair ∈ s.returned → keyOfFile derive bytes = .ok keypair

/-- Calls may overlap in any way: once the file is there and nobody writes it, it stays, as long as
every look finds it. -/
theorem KeyState.Settled.next {bytes : List UInt8} (h : s.Settled derive bytes) (hseen : e.Seen)
    (hnext : KeyNext derive s e s') : s'.Settled derive bytes := by
  -- the calls that are left when one is gone
  have hrest : ∀ {before after : List KeyCall} {call : KeyCall},
      s.calls = before ++ call :: after → ∀ call' ∈ before ++ after, call' = .read := by
    intro before after call hcalls call' hmem
    apply h.reading
    rw [hcalls]
    rcases List.mem_append.1 hmem with hmem | hmem
    · exact List.mem_append_left _ hmem
    · exact List.mem_append_right _ (List.mem_cons_of_mem call hmem)
  have hread : ∀ {before after : List KeyCall} {call : KeyCall},
      s.calls = before ++ call :: after → call = .read := by
    intro before after call hcalls
    apply h.reading
    rw [hcalls]
    exact List.mem_append_right _ List.mem_cons_self
  have herror : ∀ {calls : List KeyCall} {err : KeystoreError}, (∀ call ∈ calls, call = .read) →
      (s.finish calls (.error err)).Settled derive bytes := by
    intro calls err hcalls
    refine { file := h.file, reading := hcalls, returned := ?_ }
    intro keypair hmem
    rcases List.mem_append.1 hmem with hmem | hmem
    · exact h.returned keypair hmem
    · cases List.mem_singleton.1 hmem
  cases hnext with
  | found secret hfile =>
      refine { file := h.file, reading := ?_, returned := h.returned }
      intro call hmem
      rcases List.mem_append.1 hmem with hmem | hmem
      · exact h.reading call hmem
      · exact List.mem_singleton.1 hmem
  | missing secret hfile =>
      rw [show _ = true from hseen, ifExists, if_pos rfl, h.file] at hfile
      cases hfile
  | readFailed err hcalls => exact herror (hrest hcalls)
  | read hcalls hfile =>
      rename_i content
      rw [h.file] at hfile
      cases hfile
      refine { file := h.file, reading := hrest hcalls, returned := ?_ }
      intro keypair hmem
      rcases List.mem_append.1 hmem with hmem | hmem
      · exact h.returned keypair hmem
      · exact (List.mem_singleton.1 hmem).symm
  | createDirFailed err hcalls => cases hread hcalls
  | createDir hcalls => cases hread hcalls
  | openFailed err hcalls => cases hread hcalls
  | opened hcalls => cases hread hcalls
  | stopped count err hcalls hfile => cases hread hcalls
  | written hcalls hfile => cases hread hcalls
  | crash hcalls => exact { file := h.file, reading := hrest hcalls, returned := h.returned }
  | crashWriting count hcalls hfile => cases hread hcalls

/-! ## Calls one after the other -/

/-- How far a series of calls has come: there is no file and no key, the file was opened for the
first key, or the file is settled. -/
inductive Phase (derive : Bytes 32 → Bytes 32) (s : KeyState) : Prop
  | absent : s.file = none →
      (s.calls = [] ∨ ∃ secret,
        s.calls = [.createDir (SigningKeypair.fromSecretBytes derive secret)] ∨
        s.calls = [.openFile (SigningKeypair.fromSecretBytes derive secret)]) →
      (∀ keypair, .ok keypair ∉ s.returned) → Phase derive s
  | opened (secret : Bytes 32) : s.file = some [] →
      s.calls = [.write (SigningKeypair.fromSecretBytes derive secret)] →
      (∀ keypair, .ok keypair ∉ s.returned) → Phase derive s
  | settled (bytes : List UInt8) : s.Settled derive bytes → Phase derive s

/-- A single call is the one that takes the step. -/
theorem eq_of_singleton {call call' : KeyCall} {before after : List KeyCall}
    (h : [call] = before ++ call' :: after) : call' = call ∧ before ++ after = [] := by
  cases before with
  | nil =>
      rcases List.cons.inj h with ⟨hcall, hafter⟩
      exact ⟨hcall.symm, hafter.symm⟩
  | cons call'' before =>
      have hnil := (List.cons.inj h).2
      simp at hnil

/-- A call that fails returns no key. -/
theorem noKey_finish (h : ∀ keypair, .ok keypair ∉ s.returned) (calls : List KeyCall)
    (err : KeystoreError) : ∀ keypair, .ok keypair ∉ (s.finish calls (.error err)).returned := by
  intro keypair hmem
  rcases List.mem_append.1 hmem with hmem | hmem
  · exact h keypair hmem
  · cases List.mem_singleton.1 hmem

theorem Phase.of_idle (hfile : s.file = none) (hcalls : s.calls = [])
    (hnone : ∀ keypair, .ok keypair ∉ s.returned) (hnext : KeyNext derive s e s') :
    Phase derive s' := by
  have hno : ∀ {before after : List KeyCall} {call : KeyCall},
      s.calls ≠ before ++ call :: after := by
    intro before after call h
    rw [hcalls] at h
    simp at h
  cases hnext with
  | found secret hfound =>
      simp [ifExists, hfile] at hfound
  | missing secret _ =>
      refine Phase.absent hfile (Or.inr ⟨secret, Or.inl ?_⟩) hnone
      simp [hcalls]
  | readFailed err h => exact absurd h hno
  | read h _ => exact absurd h hno
  | createDirFailed err h => exact absurd h hno
  | createDir h => exact absurd h hno
  | openFailed err h => exact absurd h hno
  | opened h => exact absurd h hno
  | stopped count err h _ => exact absurd h hno
  | written h _ => exact absurd h hno
  | crash h => exact absurd h hno
  | crashWriting count h _ => exact absurd h hno

/-- Before the file is opened, nothing but the one call changes. -/
theorem Phase.of_saving {secret : Bytes 32} (hfile : s.file = none)
    (hcalls : s.calls = [.createDir (SigningKeypair.fromSecretBytes derive secret)] ∨
      s.calls = [.openFile (SigningKeypair.fromSecretBytes derive secret)])
    (hnone : ∀ keypair, .ok keypair ∉ s.returned) (hserial : Serial s e)
    (hnext : KeyNext derive s e s') : Phase derive s' := by
  have hidle : ¬ s.calls = [] := by
    rcases hcalls with h | h <;> simp [h]
  have hone : ∀ {before after : List KeyCall} {call : KeyCall},
      s.calls = before ++ call :: after → before ++ after = [] ∧
        (call = .createDir (SigningKeypair.fromSecretBytes derive secret) ∨
          call = .openFile (SigningKeypair.fromSecretBytes derive secret)) := by
    intro before after call h
    rcases hcalls with hcall | hcall
    · rw [hcall] at h
      rcases eq_of_singleton h with ⟨rfl, hnil⟩
      exact ⟨hnil, Or.inl rfl⟩
    · rw [hcall] at h
      rcases eq_of_singleton h with ⟨rfl, hnil⟩
      exact ⟨hnil, Or.inr rfl⟩
  cases hnext with
  | found secret' hfound => exact absurd hserial hidle
  | missing secret' _ => exact absurd hserial hidle
  | readFailed err h => rcases (hone h).2 with hcall | hcall <;> cases hcall
  | read h _ => rcases (hone h).2 with hcall | hcall <;> cases hcall
  | createDirFailed err h =>
      exact Phase.absent hfile (Or.inl (hone h).1) (noKey_finish hnone _ _)
  | createDir h =>
      rcases hone h with ⟨hnil, hcall | hcall⟩
      · cases hcall
        rcases List.append_eq_nil_iff.1 hnil with ⟨rfl, rfl⟩
        exact Phase.absent hfile (Or.inr ⟨secret, Or.inr rfl⟩) hnone
      · cases hcall
  | openFailed err h =>
      exact Phase.absent hfile (Or.inl (hone h).1) (noKey_finish hnone _ _)
  | opened h =>
      rcases hone h with ⟨hnil, hcall | hcall⟩
      · cases hcall
      · cases hcall
        rcases List.append_eq_nil_iff.1 hnil with ⟨rfl, rfl⟩
        exact Phase.opened secret rfl rfl hnone
  | stopped count err h _ => rcases (hone h).2 with hcall | hcall <;> cases hcall
  | written h _ => rcases (hone h).2 with hcall | hcall <;> cases hcall
  | crash h => exact Phase.absent hfile (Or.inl (hone h).1) hnone
  | crashWriting count h _ => rcases (hone h).2 with hcall | hcall <;> cases hcall

/-- Whatever becomes of the write, the file is settled behind it. -/
theorem Phase.of_opened {secret : Bytes 32} (hfile : s.file = some [])
    (hcalls : s.calls = [.write (SigningKeypair.fromSecretBytes derive secret)])
    (hnone : ∀ keypair, .ok keypair ∉ s.returned) (hserial : Serial s e)
    (hnext : KeyNext derive s e s') : Phase derive s' := by
  have hidle : ¬ s.calls = [] := by simp [hcalls]
  have hone : ∀ {before after : List KeyCall} {call : KeyCall},
      s.calls = before ++ call :: after → before ++ after = [] ∧
        call = .write (SigningKeypair.fromSecretBytes derive secret) := by
    intro before after call h
    rw [hcalls] at h
    rcases eq_of_singleton h with ⟨hcall, hnil⟩
    exact ⟨hnil, hcall⟩
  cases hnext with
  | found secret' hfound => exact absurd hserial hidle
  | missing secret' _ => exact absurd hserial hidle
  | readFailed err h => cases (hone h).2
  | read h _ => cases (hone h).2
  | createDirFailed err h => cases (hone h).2
  | createDir h => cases (hone h).2
  | openFailed err h => cases (hone h).2
  | opened h => cases (hone h).2
  | stopped count err h _ =>
      refine Phase.settled _ { file := rfl, reading := ?_, returned := ?_ }
      · intro call hmem
        rw [KeyState.finish, (hone h).1] at hmem
        cases hmem
      · intro keypair hmem
        rcases List.mem_append.1 hmem with hmem | hmem
        · exact absurd hmem (hnone keypair)
        · cases List.mem_singleton.1 hmem
  | written h hcontent =>
      rename_i before after keypair content
      cases (hone h).2
      have hempty : content = [] := by
        rw [hfile] at hcontent
        exact (Option.some.inj hcontent).symm
      refine Phase.settled secret.bytes { file := ?_, reading := ?_, returned := ?_ }
      · rw [hempty]
        simp [KeyState.finish, overwrite, SigningKeypair.fromSecretBytes]
      · intro call hmem
        rw [KeyState.finish, (hone h).1] at hmem
        cases hmem
      · intro keypair hmem
        rcases List.mem_append.1 hmem with hmem | hmem
        · exact absurd hmem (hnone keypair)
        · rw [keyOfFile_bytes, ← List.mem_singleton.1 hmem]
  | crash h =>
      refine Phase.settled [] { file := hfile, reading := ?_, returned := ?_ }
      · intro call hmem
        have hmem' := (hone h).1 ▸ hmem
        cases hmem'
      · intro keypair hmem
        exact absurd hmem (hnone keypair)
  | crashWriting count h _ =>
      refine Phase.settled _ { file := rfl, reading := ?_, returned := ?_ }
      · intro call hmem
        have hmem' := (hone h).1 ▸ hmem
        cases hmem'
      · intro keypair hmem
        exact absurd hmem (hnone keypair)

theorem Phase.next (h : Phase derive s) (hserial : Serial s e) (hseen : e.Seen)
    (hnext : KeyNext derive s e s') : Phase derive s' := by
  cases h with
  | absent hfile hcalls hnone =>
      rcases hcalls with hcalls | ⟨secret, hcalls⟩
      · exact Phase.of_idle hfile hcalls hnone hnext
      · exact Phase.of_saving hfile hcalls hnone hserial hnext
  | opened secret hfile hcalls hnone => exact Phase.of_opened hfile hcalls hnone hserial hnext
  | settled bytes hsettled => exact Phase.settled bytes (hsettled.next hseen hnext)

theorem phase_of_run (hrun : Run Fresh (KeyNext derive) (fun s e => Serial s e ∧ e.Seen) s) :
    Phase derive s := by
  refine Run.invariant (I := Phase derive) ?_ ?_ hrun
  · rintro s ⟨hcalls, hreturned⟩
    have hnone : ∀ keypair, .ok keypair ∉ s.returned := by simp [hreturned]
    cases hfile : s.file with
    | none => exact Phase.absent hfile (Or.inl hcalls) hnone
    | some bytes =>
        refine Phase.settled bytes { file := hfile, reading := by simp [hcalls], returned := ?_ }
        exact fun keypair hmem => absurd hmem (hnone keypair)
  · exact fun _ _ _ h hallowed hnext => h.next hallowed.1 hallowed.2 hnext

theorem settled_of_run {bytes : List UInt8} (h : s.Settled derive bytes)
    (hrun : Run (fun t => t = s) (KeyNext derive) (fun _ e => e.Seen) s') :
    s'.Settled derive bytes := by
  refine Run.invariant (I := KeyState.Settled derive bytes) ?_ ?_ hrun
  · rintro _ rfl
    exact h
  · exact fun _ _ _ hsettled hseen hnext => hsettled.next hseen hnext

/-- In every series of calls whose looks at the key file succeed, with any of their other operations
failing and any of their processes ending in between: every key returned is the one in the key file.
Once a call has opened the file and is gone, the file stays as it is, also under calls that overlap:
the key in it is the only one that is ever returned, and if the write was cut short no key is
returned any more.  One look that fails is enough to lose the key: if nothing else fails, the call
writes a new key over the old one and returns it. -/
theorem key_survives_restarts
    (hrun : Run Fresh (KeyNext derive) (fun s e => Serial s e ∧ e.Seen) s) :
    (∀ keypair, .ok keypair ∈ s.returned → s.file = some keypair.signingKey.bytes) ∧
    (∀ bytes, s.file = some bytes → (∀ keypair, .write keypair ∉ s.calls) →
      ∀ s', Run (fun t => t = s) (KeyNext derive) (fun _ e => e.Seen) s' →
        s'.file = some bytes ∧
        (∀ keypair, .ok keypair ∈ s'.returned → keypair.signingKey.bytes = bytes) ∧
        (bytes.length ≠ 32 → ∀ keypair, .ok keypair ∉ s'.returned)) ∧
    (s.calls = [] → ∀ secret, Run (fun t => t = s) (KeyNext derive) Serial
      { file := some secret.bytes
        calls := []
        returned := s.returned ++ [.ok (SigningKeypair.fromSecretBytes derive secret)] }) := by
  have hphase := phase_of_run hrun
  refine ⟨?_, ?_, ?_⟩
  · intro keypair hmem
    cases hphase with
    | absent _ _ hnone => exact absurd hmem (hnone keypair)
    | opened _ _ _ hnone => exact absurd hmem (hnone keypair)
    | settled bytes h =>
        rw [h.file, keyOfFile_eq_ok (h.returned keypair hmem)]
  · intro bytes hfile hnobody s' hlater
    have hsettled : s.Settled derive bytes := by
      cases hphase with
      | absent habsent _ _ =>
          rw [habsent] at hfile
          cases hfile
      | opened secret _ hcalls _ =>
          refine absurd ?_ (hnobody (SigningKeypair.fromSecretBytes derive secret))
          simp [hcalls]
      | settled bytes' h =>
          have heq : bytes' = bytes := Option.some.inj (h.file.symm.trans hfile)
          exact heq ▸ h
    have hlast := settled_of_run hsettled hlater
    refine ⟨hlast.file, fun keypair hmem => keyOfFile_eq_ok (hlast.returned keypair hmem), ?_⟩
    intro hlen keypair hmem
    have hbytes := keyOfFile_eq_ok (hlast.returned keypair hmem)
    rw [← hbytes] at hlen
    exact hlen keypair.signingKey.length_eq
  · intro hidle secret
    have hlost := (run_loadOrGenerateKeypair derive secret false (.ok ()) .done hidle).mono
      (fun _ _ h => h.1)
    simpa [loadOrGenerateKeypair, ifExists, saveKeypairBytes, fileAfter, overwrite,
      SigningKeypair.fromSecretBytes] using hlost

end Runs

/-- The second call reads the key of the first one; the secret drawn for it is not used. -/
theorem key_survives_restarts_two :
    let keypair := SigningKeypair.fromSecretBytes id ⟨List.replicate 32 7, rfl⟩
    let s : KeyState :=
      { file := some keypair.signingKey.bytes
        calls := []
        returned := [.ok keypair, .ok keypair] }
    (∀ keypair', .ok keypair' ∈ s.returned → s.file = some keypair'.signingKey.bytes) ∧
      ∀ s', Run (fun t => t = s) (KeyNext id) (fun _ e => e.Seen) s' → s'.file = s.file := by
  intro keypair s
  have hfresh : Run Fresh (KeyNext id) (fun s e => Serial s e ∧ e.Seen)
      { file := none, calls := [], returned := [] } := Run.start ⟨rfl, rfl⟩
  have hseen : ∀ s e, Serial s e ∧ (true = true → e.Seen) → Serial s e ∧ e.Seen :=
    fun _ _ h => ⟨h.1, h.2 rfl⟩
  have hfirst := hfresh.trans ((run_loadOrGenerateKeypair id ⟨List.replicate 32 7, rfl⟩ true
    (.ok ()) .done rfl).mono hseen)
  have hsecond := hfirst.trans ((run_loadOrGenerateKeypair id ⟨List.replicate 32 9, rfl⟩ true
    (.ok ()) .done rfl).mono hseen)
  have hkept := key_survives_restarts (s := s) hsecond
  refine ⟨hkept.1, fun s' hlater => ?_⟩
  exact (hkept.2.1 keypair.signingKey.bytes rfl (by simp [s]) s' hlater).1

end Startup
end CraftecCore
