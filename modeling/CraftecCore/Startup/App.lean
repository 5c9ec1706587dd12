import CraftecCore.Library.FileSystem
import CraftecCore.Library.StoredValue
import CraftecCore.Library.Text
import CraftecCore.Startup.Keystore
import Mathlib.Logic.Function.Basic

/-!
# App — a service that is started again and again

`AppBuilder::build` loads the keypair and then the settings, and writes either file if it finds
none; a look that fails finds none.  The running application changes its settings and saves them.
Every write may be cut short, by an error or by the end of the process.  For the service a file is
one of three things: not there, a value, or the front of one (`Stored`), and the machine with its
files does what a service does that keeps two such values (`startup_refines`).
-/

namespace CraftecCore
namespace Startup

open FileSystem StoredValue Text Transition

/-! ## The source functions -/

inductive SettingsError
  | readError (err : String)
  | writeError (err : String)
  | parseError (err : String)
  | createDirError (err : String)
  deriving DecidableEq, Repr

inductive AppError
  | initError (err : String)
  | settingsError (err : SettingsError)
  | keystoreError (err : KeystoreError)
  deriving DecidableEq, Repr

structure ConfigType (T : Type) where
  default : T
  toStringPretty : T → Except String String
  fromStr : String → Except String T

abbrev Files := Path → Option (List UInt8)

structure Settings (T : Type) where
  config : T
  path : Path
  deriving DecidableEq

section Source

variable {T : Type} (x : ConfigType T)

def Settings.save (answer : WriteAnswer) (settings : Settings T) (files : Files) :
    Except SettingsError Unit × Files :=
  match answer, x.toStringPretty settings.config with
  | .noDir err, _ => (.error (.createDirError err), files)
  | _, .error err => (.error (.writeError err), files)
  | .notOpened err, .ok _ => (.error (.writeError err), files)
  | .stopped count err, .ok content =>
      (.error (.writeError err), Function.update files settings.path
        (fileAfter (.stopped count err) (utf8 content) (files settings.path)))
  | .done, .ok content =>
      (.ok (), Function.update files settings.path
        (fileAfter .done (utf8 content) (files settings.path)))

def settingsOfFile (path : Path) (bytes : List UInt8) : Except SettingsError (Settings T) :=
  match fromUtf8 bytes with
  | none => .error (.readError "stream did not contain valid UTF-8")
  | some content =>
      match x.fromStr content with
      | .error err => .error (.parseError err)
      | .ok config => .ok { config := config, path := path }

/-- Load settings from the path, or create defaults. -/
def Settings.loadOrDefault (seen : Bool) (readAnswer : Except String Unit) (answer : WriteAnswer)
    (path : Path) (files : Files) : Except SettingsError (Settings T) × Files :=
  match ifExists seen (files path) with
  | some bytes =>
      match readAnswer with
      | .error err => (.error (.readError err), files)
      | .ok () => (settingsOfFile x path bytes, files)
  | none =>
      let settings : Settings T := { config := x.default, path := path }
      match settings.save x answer files with
      | (.error err, files') => (.error err, files')
      | (.ok (), files') => (.ok settings, files')

inductive AppType
  | cli
  | desktop
  | mobile
  | daemon
  | node
  deriving DecidableEq, Repr

structure App (T : Type) where
  service : String
  appType : AppType
  keypair : SigningKeypair
  settings : Settings T

structure AppBuilder where
  service : String
  appType : AppType
  configPath : Option Path

def AppBuilder.new (service : String) : AppBuilder :=
  { service := service
    appType := .cli
    configPath := none }

def AppBuilder.withAppType (appType : AppType) (builder : AppBuilder) : AppBuilder :=
  { builder with appType := appType }

/-- Where the files of a service are if nothing else is said, on one platform. -/
structure Places where
  defaultKeyPathFor : String → Path
  defaultSettingsPath : String → Path

/-- What a build draws, and what the system answers it. -/
structure BuildAnswers where
  secret : Bytes 32
  /-- Whether a look at the key file succeeds. -/
  seeKey : Bool
  readKey : Except String Unit
  writeKey : WriteAnswer
  /-- Whether a look at the settings file succeeds. -/
  seeSettings : Bool
  readSettings : Except String Unit
  writeSettings : WriteAnswer

variable (places : Places) (derive : Bytes 32 → Bytes 32)

def AppBuilder.settingsPath (builder : AppBuilder) : Path :=
  builder.configPath.getD (places.defaultSettingsPath builder.service)

/-- The first half of `build`: load or generate the keypair. -/
def AppBuilder.loadKey (answers : BuildAnswers) (builder : AppBuilder) (files : Files) :
    Except KeystoreError SigningKeypair × Files :=
  let keyPath := places.defaultKeyPathFor builder.service
  match loadOrGenerateKeypair derive answers.secret answers.seeKey answers.readKey
      answers.writeKey (files keyPath) with
  | (result, file) => (result, Function.update files keyPath file)

def AppBuilder.build (answers : BuildAnswers) (builder : AppBuilder) (files : Files) :
    Except AppError (App T) × Files :=
  match builder.loadKey places derive answers files with
  | (.error err, files) => (.error (.keystoreError err), files)
  | (.ok keypair, files) =>
      match Settings.loadOrDefault x answers.seeSettings answers.readSettings
          answers.writeSettings (builder.settingsPath places) files with
      | (.error err, files) => (.error (.settingsError err), files)
      | (.ok settings, files) =>
          (.ok
            { service := builder.service
              appType := builder.appType
              keypair := keypair
              settings := settings }, files)

/-! ## Processes one after the other -/

structure Machine (T : Type) where
  files : Files
  /-- The application of the process that runs. -/
  app : Option (App T)
  /-- What the builds have returned. -/
  built : List (App T)

inductive StartupEvent (T : Type)
  | build (builder : AppBuilder) (answers : BuildAnswers)
  /-- The process ends while it loads or writes the key; the answers say how far it comes. -/
  | endAtKey (builder : AppBuilder) (answers : BuildAnswers)
  /-- The process ends while it loads or writes the settings. -/
  | endAtSettings (builder : AppBuilder) (answers : BuildAnswers)
  | setConfig (config : T)
  | save (answer : WriteAnswer)
  | endAtSave (answer : WriteAnswer)
  | exit

def App.setConfig (config : T) (app : App T) : App T :=
  { app with settings := { app.settings with config := config } }

def Machine.step (s : Machine T) : StartupEvent T → Option (Machine T)
  | .build builder answers =>
      match s.app with
      | some _ => none
      | none =>
          match builder.build x places derive answers s.files with
          | (.error _, files) => some { s with files := files }
          | (.ok app, files) => some { files := files, app := some app, built := s.built ++ [app] }
  | .endAtKey builder answers =>
      match s.app with
      | some _ => none
      | none => some { s with files := (builder.loadKey places derive answers s.files).2 }
  | .endAtSettings builder answers =>
      match s.app with
      | some _ => none
      | none => some { s with files := (builder.build x places derive answers s.files).2 }
  | .setConfig config => s.app.map fun app => { s with app := some (app.setConfig config) }
  | .save answer =>
      s.app.map fun app => { s with files := (app.settings.save x answer s.files).2 }
  | .endAtSave answer =>
      s.app.map fun app =>
        { s with
          files := (app.settings.save x answer s.files).2
          app := none }
  | .exit => some { s with app := none }

def Machine.Fresh (s : Machine T) : Prop :=
  (∀ path, s.files path = none) ∧ s.app = none ∧ s.built = []

end Source

/-! ## A service that keeps a key and settings -/

/-- How far a write comes by its answers. -/
def WriteAnswer.ending : WriteAnswer → Ending
  | .done => .done
  | .noDir _ => .unopened
  | .notOpened _ => .unopened
  | .stopped count _ => .stopped count

def keyFormat : Format (Bytes 32) :=
  { print := fun secret => some secret.bytes
    parse := Bytes.ofList? 32 }

def ConfigType.format {T : Type} (x : ConfigType T) : Format T :=
  { print := fun config => (x.toStringPretty config).toOption.map utf8
    parse := fun bytes => (fromUtf8 bytes).bind fun content => (x.fromStr content).toOption }

structure Service (T : Type) where
  key : Stored (Bytes 32)
  settings : Path → Stored T
  app : Option (App T)
  built : List (App T)

section Service

variable {T : Type} (x : ConfigType T) (places : Places) (derive : Bytes 32 → Bytes 32)

def readable (answer : Except String Unit) : Bool :=
  answer.toOption.isSome

def Service.obtainKey (answers : BuildAnswers) (a : Service T) : Option (Bytes 32) × Service T :=
  match a.key.obtain keyFormat answers.seeKey (readable answers.readKey) answers.writeKey.ending
      answers.secret with
  | (secret, key) => (secret, { a with key := key })

def Service.obtainSettings (answers : BuildAnswers) (path : Path) (a : Service T) :
    Option T × Service T :=
  match (a.settings path).obtain x.format answers.seeSettings (readable answers.readSettings)
      answers.writeSettings.ending x.default with
  | (config, stored) => (config, { a with settings := Function.update a.settings path stored })

/-- The application of a service that has its key and its settings. -/
def AppBuilder.app (builder : AppBuilder) (secret : Bytes 32) (config : T) : App T :=
  { service := builder.service
    appType := builder.appType
    keypair := SigningKeypair.fromSecretBytes derive secret
    settings := { config := config, path := builder.settingsPath places } }

def Service.build (builder : AppBuilder) (answers : BuildAnswers) (a : Service T) :
    Option (App T) × Service T :=
  match a.obtainKey answers with
  | (none, a) => (none, a)
  | (some secret, a) =>
      match a.obtainSettings x answers (builder.settingsPath places) with
      | (none, a) => (none, a)
      | (some config, a) => (some (builder.app places derive secret config), a)

def Service.save (answer : WriteAnswer) (app : App T) (a : Service T) : Service T :=
  let path := app.settings.path
  { a with
    settings := Function.update a.settings path
      ((a.settings path).write x.format answer.ending app.settings.config) }

def Service.step (a : Service T) : StartupEvent T → Option (Service T)
  | .build builder answers =>
      match a.app with
      | some _ => none
      | none =>
          match a.build x places derive builder answers with
          | (none, a') => some a'
          | (some app, a') => some { a' with app := some app, built := a.built ++ [app] }
  | .endAtKey _ answers =>
      match a.app with
      | some _ => none
      | none => some (a.obtainKey answers).2
  | .endAtSettings builder answers =>
      match a.app with
      | some _ => none
      | none => some (a.build x places derive builder answers).2
  | .setConfig config => a.app.map fun app => { a with app := some (app.setConfig config) }
  | .save answer => a.app.map fun app => a.save x answer app
  | .endAtSave answer => a.app.map fun app => { a.save x answer app with app := none }
  | .exit => some { a with app := none }

def Service.Fresh (a : Service T) : Prop :=
  a.key = .absent ∧ (∀ path, a.settings path = .absent) ∧ a.app = none ∧ a.built = []

end Service

/-! ## The functions on the files do what the service does -/

/-- What serde and `serde_json` do with the configurations of a service: a configuration is read
back from its text, and the text cut short is no JSON text. -/
structure ConfigType.ReadsBack {T : Type} (x : ConfigType T) : Prop where
  fromStr_toStringPretty : ∀ {config text}, x.toStringPretty config = .ok text →
    x.fromStr text = .ok config
  fromStr_front : ∀ {config text front}, x.toStringPretty config = .ok text →
    utf8 front <+: utf8 text → front ≠ text → ∃ err, x.fromStr front = .error err

theorem keyFormat_sound : keyFormat.Sound where
  parse_print := by
    intro secret bytes h
    cases h
    exact Bytes.ofList?_bytes secret
  parse_front := by
    intro secret bytes front h hfront hne
    cases h
    refine dif_neg fun hlength => hne ?_
    exact hfront.eq_of_length (hlength.trans secret.length_eq.symm)

section Simulation

variable {T : Type} {x : ConfigType T} {places : Places} {derive : Bytes 32 → Bytes 32}
  {service : String}

theorem ConfigType.ReadsBack.sound (hx : x.ReadsBack) : x.format.Sound where
  parse_print := by
    intro config bytes h
    cases htext : x.toStringPretty config with
    | error err => simp [ConfigType.format, htext, Except.toOption] at h
    | ok text =>
        have hbytes : utf8 text = bytes := by
          simpa [ConfigType.format, htext, Except.toOption] using h
        simp [ConfigType.format, ← hbytes, hx.fromStr_toStringPretty htext, Except.toOption]
  parse_front := by
    intro config bytes front h hfront hne
    cases htext : x.toStringPretty config with
    | error err => simp [ConfigType.format, htext, Except.toOption] at h
    | ok text =>
        have hbytes : utf8 text = bytes := by
          simpa [ConfigType.format, htext, Except.toOption] using h
        cases hcontent : fromUtf8 front with
        | none => simp [ConfigType.format, hcontent]
        | some content =>
            have hutf8 : utf8 content = front := utf8_of_fromUtf8 hcontent
            have hcut : content ≠ text := by
              intro heq
              exact hne (hutf8.symm.trans (heq ▸ hbytes))
            obtain ⟨err, herr⟩ := hx.fromStr_front htext (hutf8 ▸ hbytes ▸ hfront) hcut
            simp [ConfigType.format, hcontent, herr, Except.toOption]

/-- Writing the key file, in terms of its format. -/
theorem fileAfter_secret (answer : WriteAnswer) (secret : Bytes 32) (file : Option (List UInt8)) :
    fileAfter answer secret.bytes file = keyFormat.writeFile answer.ending secret file := by
  cases answer <;> simp [fileAfter, overwrite, Format.writeFile, keyFormat, WriteAnswer.ending]

theorem loadOrGenerateKeypair_obtainFile (derive : Bytes 32 → Bytes 32) (secret : Bytes 32)
    (seen : Bool) (readAnswer : Except String Unit) (answer : WriteAnswer)
    (file : Option (List UInt8)) :
    (loadOrGenerateKeypair derive secret seen readAnswer answer file).1.toOption =
        (keyFormat.obtainFile seen (readable readAnswer) answer.ending secret file).1.map
          (SigningKeypair.fromSecretBytes derive) ∧
      (loadOrGenerateKeypair derive secret seen readAnswer answer file).2 =
        (keyFormat.obtainFile seen (readable readAnswer) answer.ending secret file).2 := by
  unfold loadOrGenerateKeypair Format.obtainFile ifExists
  cases (if seen then file else none) with
  | some bytes =>
      cases readAnswer with
      | error err => exact ⟨rfl, rfl⟩
      | ok _ =>
          refine ⟨?_, rfl⟩
          simp only [keyOfFile, keyFormat]
          cases Bytes.ofList? 32 bytes <;> rfl
  | none =>
      have hfile := fileAfter_secret answer secret file
      cases answer <;> exact ⟨rfl, hfile⟩

theorem save_writeFile (answer : WriteAnswer) (settings : Settings T) (files : Files) :
    (settings.save x answer files).2 = Function.update files settings.path
      (x.format.writeFile answer.ending settings.config (files settings.path)) := by
  cases htext : x.toStringPretty settings.config <;> cases answer <;>
    simp [Settings.save, htext, Format.writeFile, ConfigType.format, Except.toOption,
      WriteAnswer.ending, fileAfter, overwrite]

theorem save_toOption (answer : WriteAnswer) (settings : Settings T) (files : Files) :
    (settings.save x answer files).1.toOption =
      if x.format.written answer.ending settings.config then some () else none := by
  cases htext : x.toStringPretty settings.config <;> cases answer <;>
    simp [Settings.save, htext, Format.written, ConfigType.format, Except.toOption,
      WriteAnswer.ending]

theorem loadOrDefault_obtainFile (seen : Bool) (readAnswer : Except String Unit)
    (answer : WriteAnswer) (path : Path) (files : Files) :
    (Settings.loadOrDefault x seen readAnswer answer path files).1.toOption =
        (x.format.obtainFile seen (readable readAnswer) answer.ending x.default
          (files path)).1.map (fun config => { config := config, path := path }) ∧
      (Settings.loadOrDefault x seen readAnswer answer path files).2 = Function.update files path
        (x.format.obtainFile seen (readable readAnswer) answer.ending x.default
          (files path)).2 := by
  unfold Settings.loadOrDefault Format.obtainFile ifExists
  cases (if seen then files path else none) with
  | some bytes =>
      have hkept : Function.update files path (files path) = files := Function.update_eq_self _ _
      cases readAnswer with
      | error err => exact ⟨rfl, hkept.symm⟩
      | ok _ =>
          refine ⟨?_, hkept.symm⟩
          simp only [readable, Except.toOption, settingsOfFile, ConfigType.format]
          cases fromUtf8 bytes with
          | none => rfl
          | some content =>
              simp only [Option.bind_some]
              cases x.fromStr content <;> rfl
  | none =>
      have hsaved := save_toOption (x := x) answer { config := x.default, path := path } files
      have hwritten := save_writeFile (x := x) answer { config := x.default, path := path } files
      simp only at hwritten ⊢
      rcases hsave : Settings.save x answer { config := x.default, path := path } files with
        ⟨err | _, files'⟩
      · rw [hsave] at hsaved hwritten
        refine ⟨?_, hwritten⟩
        cases hok : x.format.written answer.ending x.default with
        | true => simp [hok, Except.toOption] at hsaved
        | false => rfl
      · rw [hsave] at hsaved hwritten
        refine ⟨?_, hwritten⟩
        cases hok : x.format.written answer.ending x.default with
        | true => rfl
        | false => simp [hok, Except.toOption] at hsaved

/-- What the service keeps is what the files hold. -/
structure Service.Keeps (x : ConfigType T) (keyPath : Path) (a : Service T) (files : Files) :
    Prop where
  key : a.key.Holds keyFormat (files keyPath)
  settings : ∀ path, path ≠ keyPath → (a.settings path).Holds x.format (files path)

theorem Service.Keeps.obtainKey {a : Service T} {files : Files} {builder : AppBuilder}
    (h : a.Keeps x (places.defaultKeyPathFor builder.service) files)
    (derive : Bytes 32 → Bytes 32) (answers : BuildAnswers) :
    (builder.loadKey places derive answers files).1.toOption =
        (a.obtainKey answers).1.map (SigningKeypair.fromSecretBytes derive) ∧
      (a.obtainKey answers).2.Keeps x (places.defaultKeyPathFor builder.service)
        (builder.loadKey places derive answers files).2 := by
  have hload := loadOrGenerateKeypair_obtainFile derive answers.secret answers.seeKey
    answers.readKey answers.writeKey (files (places.defaultKeyPathFor builder.service))
  have hobtain := h.key.obtain keyFormat_sound answers.seeKey (readable answers.readKey)
    answers.writeKey.ending answers.secret
  refine ⟨?_, ?_, ?_⟩
  · exact hload.1.trans (congrArg (Option.map (SigningKeypair.fromSecretBytes derive)) hobtain.1)
  · simp only [AppBuilder.loadKey, Function.update_self, hload.2]
    exact hobtain.2
  · intro path hne
    simp only [AppBuilder.loadKey, Function.update_of_ne hne]
    exact h.settings path hne

theorem Service.Keeps.update {a : Service T} {files : Files} {keyPath path : Path}
    (h : a.Keeps x keyPath files) (hne : path ≠ keyPath) {stored : Stored T}
    {file : Option (List UInt8)} (hstored : stored.Holds x.format file) :
    { a with settings := Function.update a.settings path stored }.Keeps x keyPath
      (Function.update files path file) where
  key := by
    rw [Function.update_of_ne hne.symm]
    exact h.key
  settings := by
    intro path' hne'
    by_cases heq : path' = path
    · subst heq
      simpa using hstored
    · simpa [heq] using h.settings path' hne'

theorem Service.Keeps.obtainSettings (hx : x.ReadsBack) {a : Service T} {files : Files}
    {keyPath path : Path} (h : a.Keeps x keyPath files) (hne : path ≠ keyPath)
    (answers : BuildAnswers) :
    (Settings.loadOrDefault x answers.seeSettings answers.readSettings answers.writeSettings path
        files).1.toOption =
        (a.obtainSettings x answers path).1.map (fun config => { config := config, path := path }) ∧
      (a.obtainSettings x answers path).2.Keeps x keyPath
        (Settings.loadOrDefault x answers.seeSettings answers.readSettings answers.writeSettings
          path files).2 := by
  have hload := loadOrDefault_obtainFile (x := x) answers.seeSettings answers.readSettings
    answers.writeSettings path files
  have hobtain := (h.settings path hne).obtain hx.sound answers.seeSettings
    (readable answers.readSettings) answers.writeSettings.ending x.default
  refine ⟨?_, ?_⟩
  · rw [hload.1, hobtain.1]
    rfl
  · rw [hload.2]
    exact h.update hne hobtain.2

theorem Service.Keeps.save {a : Service T} {files : Files} {keyPath : Path} {app : App T}
    (h : a.Keeps x keyPath files) (hne : app.settings.path ≠ keyPath) (answer : WriteAnswer) :
    (a.save x answer app).Keeps x keyPath (app.settings.save x answer files).2 := by
  rw [save_writeFile]
  exact h.update hne ((h.settings _ hne).write answer.ending app.settings.config)

/-- A build of the machine is one of the service. -/
theorem Service.Keeps.build (hx : x.ReadsBack) {a : Service T} {files : Files}
    {builder : AppBuilder} (h : a.Keeps x (places.defaultKeyPathFor builder.service) files)
    (hne : builder.settingsPath places ≠ places.defaultKeyPathFor builder.service)
    (derive : Bytes 32 → Bytes 32) (answers : BuildAnswers) :
    (builder.build x places derive answers files).1.toOption =
        (a.build x places derive builder answers).1 ∧
      (a.build x places derive builder answers).2.Keeps x
        (places.defaultKeyPathFor builder.service)
        (builder.build x places derive answers files).2 := by
  obtain ⟨hkey, hkeeps⟩ := h.obtainKey derive answers
  unfold AppBuilder.build Service.build
  generalize builder.loadKey places derive answers files = load at hkey hkeeps ⊢
  generalize a.obtainKey answers = obtained at hkey hkeeps ⊢
  rcases load with ⟨err | keypair, files'⟩ <;> rcases obtained with ⟨_ | secret, a'⟩
  · exact ⟨rfl, hkeeps⟩
  · cases hkey
  · cases hkey
  · cases hkey
    obtain ⟨hconfig, hkeeps'⟩ := Service.Keeps.obtainSettings hx hkeeps hne answers
    simp only at hconfig hkeeps' ⊢
    generalize Settings.loadOrDefault x answers.seeSettings answers.readSettings
      answers.writeSettings (builder.settingsPath places) files' = load at hconfig hkeeps' ⊢
    generalize a'.obtainSettings x answers (builder.settingsPath places) = obtained
      at hconfig hkeeps' ⊢
    rcases load with ⟨err | settings, files''⟩ <;> rcases obtained with ⟨_ | config, a''⟩
    · exact ⟨rfl, hkeeps'⟩
    · cases hconfig
    · cases hconfig
    · cases hconfig
      exact ⟨rfl, hkeeps'⟩

/-- Builds are for the service, and none of them has its settings in the key file. -/
def StartupEvent.Uses (places : Places) (service : String) : StartupEvent T → Prop
  | .build builder _ | .endAtKey builder _ | .endAtSettings builder _ =>
      builder.service = service ∧
        builder.settingsPath places ≠ places.defaultKeyPathFor service
  | _ => True

/-- The machine with its files is at the same point as the service. -/
structure Service.Represents (x : ConfigType T) (keyPath : Path) (a : Service T) (s : Machine T) :
    Prop where
  keeps : a.Keeps x keyPath s.files
  app : s.app = a.app
  built : s.built = a.built
  apart : ∀ app, a.app = some app → app.settings.path ≠ keyPath

/-- What is kept by obtaining a key and by obtaining settings is kept by a build. -/
theorem Service.build_preserves {P : Service T → Prop} {answers : BuildAnswers}
    {builder : AppBuilder} (hkey : ∀ a, P a → P (a.obtainKey answers).2)
    (hsettings : ∀ a, P a → P (a.obtainSettings x answers (builder.settingsPath places)).2)
    {a : Service T} (h : P a) : P (a.build x places derive builder answers).2 := by
  have hobtained := hkey a h
  unfold Service.build
  generalize a.obtainKey answers = obtained at hobtained ⊢
  rcases obtained with ⟨_ | secret, b⟩
  · exact hobtained
  · have hobtained' := hsettings b hobtained
    simp only
    generalize b.obtainSettings x answers (builder.settingsPath places) = obtained'
      at hobtained' ⊢
    rcases obtained' with ⟨_ | config, c⟩
    · exact hobtained'
    · exact hobtained'

theorem Service.build_app (x : ConfigType T) (places : Places) (derive : Bytes 32 → Bytes 32)
    (a : Service T) (builder : AppBuilder) (answers : BuildAnswers) :
    (a.build x places derive builder answers).2.app = a.app ∧
      (a.build x places derive builder answers).2.built = a.built :=
  Service.build_preserves (P := fun b => b.app = a.app ∧ b.built = a.built)
    (fun _ h => h) (fun _ h => h) ⟨rfl, rfl⟩

theorem Service.obtainKey_some {a a' : Service T} {answers : BuildAnswers} {secret : Bytes 32}
    (h : a.obtainKey answers = (some secret, a')) : a' = { a with key := .whole secret } := by
  have hstored := Stored.snd_obtain (congrArg Prod.fst h)
  have ha' := congrArg Prod.snd h
  rw [← hstored]
  exact ha'.symm

theorem Service.obtainSettings_some {a a' : Service T} {answers : BuildAnswers} {path : Path}
    {config : T} (h : a.obtainSettings x answers path = (some config, a')) :
    a' = { a with settings := Function.update a.settings path (.whole config) } := by
  have hstored := Stored.snd_obtain (congrArg Prod.fst h)
  have ha' := congrArg Prod.snd h
  rw [← hstored]
  exact ha'.symm

/-- An application starts with the key and the settings that are stored from then on. -/
theorem Service.build_some {a a' : Service T} {builder : AppBuilder} {answers : BuildAnswers}
    {app : App T} (h : a.build x places derive builder answers = (some app, a')) :
    ∃ secret config, app = builder.app places derive secret config ∧
      a' = { a with
        key := .whole secret
        settings := Function.update a.settings (builder.settingsPath places) (.whole config) } := by
  unfold Service.build at h
  rcases hkey : a.obtainKey answers with ⟨_ | secret, b⟩
  · simp [hkey] at h
  · rcases hsettings : b.obtainSettings x answers (builder.settingsPath places) with
      ⟨_ | config, c⟩
    · simp [hkey, hsettings] at h
    · simp only [hkey, hsettings, Prod.mk.injEq, Option.some.injEq] at h
      obtain ⟨rfl, rfl⟩ := h
      have hb := Service.obtainKey_some hkey
      subst hb
      exact ⟨secret, config, rfl, Service.obtainSettings_some hsettings⟩

/-- Every step of the machine is the step of the service. -/
theorem Service.Represents.step (hx : x.ReadsBack) {a : Service T} {s s' : Machine T}
    {e : StartupEvent T} (h : a.Represents x (places.defaultKeyPathFor service) s)
    (huses : e.Uses places service) (hstep : s.step x places derive e = some s') :
    ∃ a', a.step x places derive e = some a' ∧
      a'.Represents x (places.defaultKeyPathFor service) s' := by
  cases e with
  | build builder answers =>
      obtain ⟨rfl, hne⟩ := huses
      obtain ⟨hresult, hkeeps⟩ := h.keeps.build hx hne derive answers
      obtain ⟨happ, hbuilt⟩ := a.build_app x places derive builder answers
      simp only [Machine.step, Service.step, h.app] at hstep ⊢
      cases hidle : a.app with
      | some app =>
          rw [hidle] at hstep
          cases hstep
      | none =>
          rw [hidle] at hstep happ
          simp only at hstep ⊢
          generalize builder.build x places derive answers s.files = built at *
          rcases hbuild : a.build x places derive builder answers with ⟨_ | app', a'⟩ <;>
            rw [hbuild] at hresult hkeeps happ hbuilt <;> rcases built with ⟨err | app, files⟩
          · cases hstep
            refine ⟨a', rfl, hkeeps, happ.symm, h.built.trans hbuilt.symm, ?_⟩
            intro app hrunning
            rw [show a'.app = none from happ] at hrunning
            cases hrunning
          · cases hresult
          · cases hresult
          · cases hresult
            cases hstep
            refine ⟨_, rfl, ⟨hkeeps.key, hkeeps.settings⟩, rfl, congrArg (· ++ [app']) h.built, ?_⟩
            rintro _ ⟨⟩
            obtain ⟨secret, config, rfl, -⟩ := Service.build_some hbuild
            exact hne
  | endAtKey builder answers =>
      obtain ⟨rfl, hne⟩ := huses
      have hkeeps := (h.keeps.obtainKey derive answers).2
      simp only [Machine.step, Service.step, h.app] at hstep ⊢
      cases hidle : a.app with
      | some app =>
          rw [hidle] at hstep
          cases hstep
      | none =>
          rw [hidle] at hstep
          cases hstep
          exact ⟨_, rfl, hkeeps, hidle.symm, h.built, h.apart⟩
  | endAtSettings builder answers =>
      obtain ⟨rfl, hne⟩ := huses
      have hkeeps := (h.keeps.build hx hne derive answers).2
      obtain ⟨happ, hbuilt⟩ := a.build_app x places derive builder answers
      simp only [Machine.step, Service.step, h.app] at hstep ⊢
      cases hidle : a.app with
      | some app =>
          rw [hidle] at hstep
          cases hstep
      | none =>
          rw [hidle] at hstep
          cases hstep
          refine ⟨_, rfl, hkeeps, (happ.trans hidle).symm, h.built.trans hbuilt.symm, ?_⟩
          intro app hrunning
          exact h.apart app (happ ▸ hrunning)
  | setConfig config =>
      simp only [Machine.step, Service.step, h.app] at hstep ⊢
      cases hrunning : a.app with
      | none =>
          rw [hrunning] at hstep
          cases hstep
      | some app =>
          rw [hrunning] at hstep
          cases hstep
          refine ⟨_, rfl, ⟨h.keeps.key, h.keeps.settings⟩, rfl, h.built, ?_⟩
          rintro _ ⟨⟩
          exact h.apart app hrunning
  | save answer =>
      simp only [Machine.step, Service.step, h.app] at hstep ⊢
      cases hrunning : a.app with
      | none =>
          rw [hrunning] at hstep
          cases hstep
      | some app =>
          rw [hrunning] at hstep
          cases hstep
          have hkeeps := h.keeps.save (h.apart app hrunning) answer
          exact ⟨_, rfl, hkeeps, hrunning.symm, h.built, h.apart⟩
  | endAtSave answer =>
      simp only [Machine.step, Service.step, h.app] at hstep ⊢
      cases hrunning : a.app with
      | none =>
          rw [hrunning] at hstep
          cases hstep
      | some app =>
          rw [hrunning] at hstep
          cases hstep
          have hkeeps := h.keeps.save (h.apart app hrunning) answer
          refine ⟨_, rfl, ⟨hkeeps.key, hkeeps.settings⟩, rfl, h.built, ?_⟩
          rintro _ ⟨⟩
  | exit =>
      cases hstep
      refine ⟨_, rfl, ⟨h.keeps.key, h.keeps.settings⟩, rfl, h.built, ?_⟩
      rintro _ ⟨⟩

theorem exists_represents_of_fresh {s : Machine T} (h : s.Fresh) :
    ∃ a : Service T, a.Fresh ∧ a.Represents x (places.defaultKeyPathFor service) s := by
  obtain ⟨hfiles, happ, hbuilt⟩ := h
  refine ⟨{ key := .absent, settings := fun _ => .absent, app := none, built := [] },
    ⟨rfl, fun _ => rfl, rfl, rfl⟩, ⟨hfiles _, fun path _ => hfiles path⟩, happ, hbuilt, ?_⟩
  rintro _ ⟨⟩

/-- Whatever the answers and wherever the processes end: a machine that starts without files does
what a service does that keeps a key and settings, each of them absent, whole or cut short. -/
theorem startup_refines (hx : x.ReadsBack) {s : Machine T}
    (hrun : Run Machine.Fresh (fun s e s' => s.step x places derive e = some s')
      (fun _ e => e.Uses places service) s) :
    ∃ a : Service T,
      Run Service.Fresh (fun a e a' => a.step x places derive e = some a')
        (fun _ e => e.Uses places service) a ∧
      a.Represents x (places.defaultKeyPathFor service) s := by
  refine Run.simulate
    (R := fun s a => Service.Represents x (places.defaultKeyPathFor service) a s) ?_ ?_ hrun
  · exact fun s hfresh => exists_represents_of_fresh hfresh
  · intro s e s' a hrep huses hstep
    obtain ⟨a', hstep', hrep'⟩ := hrep.step hx huses hstep
    exact ⟨a', huses, hstep', hrep'⟩

/-! ## What the service keeps -/

/-- Nobody saves settings at the path, and every look at them succeeds. -/
def Machine.Leaves (places : Places) (path : Path) (s : Machine T) : StartupEvent T → Prop
  | .build builder answers | .endAtSettings builder answers =>
      builder.settingsPath places = path → answers.seeSettings = true
  | .save _ | .endAtSave _ => ∀ app, s.app = some app → app.settings.path ≠ path
  | _ => True

/-- Builds leave settings alone that are there and seen, whether they can read them or not. -/
theorem Service.build_settings (x : ConfigType T) (places : Places)
    (derive : Bytes 32 → Bytes 32) {a : Service T} {path : Path} (h : a.settings path ≠ .absent)
    {builder : AppBuilder} {answers : BuildAnswers}
    (hseen : builder.settingsPath places = path → answers.seeSettings = true) :
    (a.build x places derive builder answers).2.settings path = a.settings path := by
  refine Service.build_preserves (P := fun b => b.settings path = a.settings path) ?_ ?_ rfl
  · exact fun _ hkept => hkept
  · intro b hkept
    change Function.update b.settings (builder.settingsPath places) _ path = _
    by_cases heq : path = builder.settingsPath places
    · subst heq
      rw [Function.update_self, hseen rfl]
      exact (Stored.snd_obtain_of_ne_absent (hkept ▸ h) _ _ _).trans hkept
    · rw [Function.update_of_ne heq, hkept]

theorem Service.save_settings {a : Service T} {path : Path} {app : App T}
    (h : app.settings.path ≠ path) (answer : WriteAnswer) :
    (a.save x answer app).settings path = a.settings path := by
  simp only [Service.save, Function.update_of_ne h.symm]

theorem Service.step_settings {a a' : Service T} {s : Machine T} {e : StartupEvent T} {path : Path}
    (happ : s.app = a.app) (h : a.settings path ≠ .absent)
    (hstep : a.step x places derive e = some a') (hleaves : s.Leaves places path e) :
    a'.settings path = a.settings path := by
  cases e with
  | build builder answers =>
      have hkept := Service.build_settings x places derive h hleaves
      simp only [Service.step] at hstep
      cases hidle : a.app with
      | some app => simp [hidle] at hstep
      | none =>
          simp only [hidle] at hstep
          generalize a.build x places derive builder answers = built at hkept hstep
          rcases built with ⟨_ | app, b⟩ <;> cases hstep <;> exact hkept
  | endAtKey builder answers =>
      simp only [Service.step] at hstep
      cases hidle : a.app with
      | some app => simp [hidle] at hstep
      | none =>
          simp only [hidle] at hstep
          cases hstep
          rfl
  | endAtSettings builder answers =>
      have hkept := Service.build_settings x places derive h hleaves
      simp only [Service.step] at hstep
      cases hidle : a.app with
      | some app => simp [hidle] at hstep
      | none =>
          simp only [hidle] at hstep
          cases hstep
          exact hkept
  | setConfig config =>
      cases hrunning : a.app with
      | none => simp [Service.step, hrunning] at hstep
      | some app =>
          simp only [Service.step, hrunning] at hstep
          cases hstep
          rfl
  | save answer =>
      cases hrunning : a.app with
      | none => simp [Service.step, hrunning] at hstep
      | some app =>
          simp only [Service.step, hrunning] at hstep
          cases hstep
          exact Service.save_settings (hleaves app (happ.trans hrunning)) answer
  | endAtSave answer =>
      cases hrunning : a.app with
      | none => simp [Service.step, hrunning] at hstep
      | some app =>
          simp only [Service.step, hrunning] at hstep
          cases hstep
          exact Service.save_settings (hleaves app (happ.trans hrunning)) answer
  | exit =>
      cases hstep
      rfl

/-- Settings that are there stay as they are until an application saves at their path or a look at
them fails. -/
theorem kept_of_run (hx : x.ReadsBack) {a : Service T} {s s' : Machine T} {path : Path}
    (hrep : a.Represents x (places.defaultKeyPathFor service) s) (h : a.settings path ≠ .absent)
    (hrun : Run (fun t => t = s) (fun s e s' => s.step x places derive e = some s')
      (fun s e => e.Uses places service ∧ s.Leaves places path e) s') :
    ∃ a', Service.Represents x (places.defaultKeyPathFor service) a' s' ∧
      a'.settings path = a.settings path := by
  refine Run.invariant (I := fun s' => ∃ a',
    Service.Represents x (places.defaultKeyPathFor service) a' s' ∧
      a'.settings path = a.settings path) ?_ ?_ hrun
  · rintro _ rfl
    exact ⟨a, hrep, rfl⟩
  · rintro s e s' ⟨b, hb, hkept⟩ ⟨huses, hleaves⟩ hstep
    obtain ⟨b', hstep', hb'⟩ := hb.step hx huses hstep
    exact ⟨b', hb', (Service.step_settings hb.app (hkept ▸ h) hstep' hleaves).trans hkept⟩

/-- What a save leaves behind decides about the builds that follow: as long as nobody else saves at
the path and every look at the settings succeeds, whatever else fails and ends in between, an
application that is built there has the saved configuration; and if the save was cut short, none is
built. -/
theorem last_save_decides (hx : x.ReadsBack) {s s₁ s₂ : Machine T} {app app' : App T}
    {e : StartupEvent T} {answer : WriteAnswer} {text : String} {builder : AppBuilder}
    {answers : BuildAnswers} {files : Files}
    (hrun : Run Machine.Fresh (fun s e s' => s.step x places derive e = some s')
      (fun _ e => e.Uses places service) s)
    (happ : s.app = some app) (hevent : e = .save answer ∨ e = .endAtSave answer)
    (hsave : s.step x places derive e = some s₁)
    (htext : x.toStringPretty app.settings.config = .ok text) (hopen : answer.ending ≠ .unopened)
    (hlater : Run (fun t => t = s₁) (fun s e s' => s.step x places derive e = some s')
      (fun s e => e.Uses places service ∧ s.Leaves places app.settings.path e) s₂)
    (hservice : builder.service = service)
    (hpath : builder.settingsPath places = app.settings.path) (hseen : answers.seeSettings = true)
    (hbuild : builder.build x places derive answers s₂.files = (.ok app', files)) :
    app'.settings.config = app.settings.config ∧
      ∀ count err, answer = .stopped count err → (utf8 text).length ≤ count := by
  subst hservice
  obtain ⟨a, -, hrep⟩ := startup_refines hx hrun
  have happ' : a.app = some app := hrep.app.symm.trans happ
  have hne := hrep.apart app happ'
  have huses : e.Uses places builder.service := by
    rcases hevent with rfl | rfl <;> trivial
  obtain ⟨b, hstep, hrep₁⟩ := hrep.step hx huses hsave
  -- the save leaves a configuration or the front of one
  have hsaved : b.settings app.settings.path =
      (a.settings app.settings.path).write x.format answer.ending app.settings.config := by
    rcases hevent with rfl | rfl
    · simp only [Service.step, happ', Option.map_some, Option.some.injEq] at hstep
      rw [← hstep]
      exact Function.update_self _ _ _
    · simp only [Service.step, happ', Option.map_some, Option.some.injEq] at hstep
      rw [← hstep]
      exact Function.update_self _ _ _
  have hprint : x.format.print app.settings.config = some (utf8 text) := by
    simp [ConfigType.format, htext, Except.toOption]
  have hthere : b.settings app.settings.path ≠ .absent := by
    rw [hsaved]
    exact Stored.write_ne_absent hprint hopen
  obtain ⟨c, hrep₂, hkept⟩ := kept_of_run hx hrep₁ hthere hlater
  -- the later build finds it
  have hresult := (hrep₂.keeps.build hx (hpath ▸ hne) derive answers).1
  rw [hbuild] at hresult
  have hthere' : c.settings app.settings.path ≠ .absent := hkept ▸ hthere
  have hsettings : (c.build x places derive builder answers).2.settings app.settings.path =
      c.settings app.settings.path :=
    Service.build_settings x places derive hthere' (fun _ => hseen)
  obtain ⟨built, c', hc'⟩ : ∃ built c', c.build x places derive builder answers = (built, c') :=
    ⟨_, _, rfl⟩
  rw [hc'] at hresult hsettings
  cases hresult
  obtain ⟨secret, config, rfl, rfl⟩ := Service.build_some hc'
  have hwhole : (a.settings app.settings.path).write x.format answer.ending app.settings.config =
      .whole config := by
    rw [← hsaved, ← hkept, ← hsettings, ← hpath]
    exact Function.update_self _ _ _
  obtain ⟨hconfig, hall⟩ := Stored.write_eq_whole hprint hopen hwhole
  refine ⟨hconfig, ?_⟩
  rintro count err rfl
  exact hall count rfl

/-! ## Runs without a write that is cut short -/

/-- Writes of a whole file that are done, or do not open the file. -/
def WriteAnswer.Uncut (answer : WriteAnswer) : Prop :=
  ∀ count, answer.ending ≠ .stopped count

def StartupEvent.Uncut : StartupEvent T → Prop
  | .build _ answers | .endAtKey _ answers | .endAtSettings _ answers =>
      answers.writeKey.Uncut ∧ answers.writeSettings.Uncut
  | .save answer | .endAtSave answer => answer.Uncut
  | _ => True

def StartupEvent.SeesKey : StartupEvent T → Prop
  | .build _ answers | .endAtKey _ answers | .endAtSettings _ answers => answers.seeKey = true
  | _ => True

/-- Nothing is cut short, and the applications that were built have the key that is stored. -/
structure Service.Intact (derive : Bytes 32 → Bytes 32) (a : Service T) : Prop where
  key : a.key ≠ .cut
  settings : ∀ path, a.settings path ≠ .cut
  built : ∀ app ∈ a.built, ∃ secret, a.key = .whole secret ∧
    app.keypair = SigningKeypair.fromSecretBytes derive secret

theorem Service.Intact.obtainKey {a : Service T} (h : a.Intact derive) {answers : BuildAnswers}
    (huncut : answers.writeKey.Uncut) (hseen : answers.seeKey = true) :
    (a.obtainKey answers).2.Intact derive where
  key := Stored.snd_obtain_ne_cut h.key huncut _ _ _
  settings := h.settings
  built := by
    intro app hmem
    obtain ⟨secret, hkey, hkeypair⟩ := h.built app hmem
    refine ⟨secret, ?_, hkeypair⟩
    rw [← hkey, Service.obtainKey, hseen]
    exact Stored.snd_obtain_of_ne_absent (by simp [hkey]) _ _ _

theorem Service.Intact.update {a : Service T} (h : a.Intact derive) (path : Path)
    {stored : Stored T} (hstored : stored ≠ .cut) :
    { a with settings := Function.update a.settings path stored }.Intact derive where
  key := h.key
  settings := by
    intro path'
    by_cases heq : path' = path
    · subst heq
      simpa using hstored
    · simpa [heq] using h.settings path'
  built := h.built

theorem Service.Intact.build (x : ConfigType T) (places : Places) {a : Service T}
    (h : a.Intact derive) {answers : BuildAnswers}
    (hkey : answers.writeKey.Uncut) (hsettings : answers.writeSettings.Uncut)
    (hseen : answers.seeKey = true) (builder : AppBuilder) :
    (a.build x places derive builder answers).2.Intact derive := by
  refine Service.build_preserves ?_ ?_ h
  · exact fun b hb => hb.obtainKey hkey hseen
  · intro b hb
    exact hb.update (builder.settingsPath places)
      (Stored.snd_obtain_ne_cut (hb.settings _) hsettings _ _ _)

theorem Service.Intact.save {a : Service T} (h : a.Intact derive) {answer : WriteAnswer}
    (huncut : answer.Uncut) (app : App T) : (a.save x answer app).Intact derive :=
  h.update app.settings.path (Stored.write_ne_cut (h.settings _) huncut _)

/-- The key of an application that was built is the one that the next one starts with. -/
theorem Service.Intact.build_some {a a' : Service T} (h : a.Intact derive)
    {answers : BuildAnswers} {builder : AppBuilder} {app : App T}
    (hbuild : a.build x places derive builder answers = (some app, a'))
    (hkey : answers.writeKey.Uncut) (hsettings : answers.writeSettings.Uncut)
    (hseen : answers.seeKey = true) :
    (∀ app' ∈ a.built, app'.keypair = app.keypair) ∧
      { a' with app := some app, built := a.built ++ [app] }.Intact derive := by
  have hintact := h.build x places hkey hsettings hseen builder
  have hbuilt := (a.build_app x places derive builder answers).2
  rw [hbuild] at hintact hbuilt
  obtain ⟨secret, config, rfl, ha'⟩ := Service.build_some hbuild
  have hsecret : a'.key = .whole secret := by rw [ha']
  have hsame : ∀ app' ∈ a.built,
      app'.keypair = SigningKeypair.fromSecretBytes derive secret := by
    intro app' hmem
    obtain ⟨secret', hkey', hkeypair⟩ := hintact.built app' (hbuilt ▸ hmem)
    rw [hsecret] at hkey'
    cases hkey'
    exact hkeypair
  refine ⟨hsame, hintact.key, hintact.settings, ?_⟩
  intro app' hmem
  refine ⟨secret, hsecret, ?_⟩
  rcases List.mem_append.1 hmem with hmem | hmem
  · exact hsame app' hmem
  · rw [List.mem_singleton.1 hmem]
    rfl

theorem Service.Intact.step {a a' : Service T} {e : StartupEvent T} (h : a.Intact derive)
    (huncut : e.Uncut) (hseen : e.SeesKey) (hstep : a.step x places derive e = some a') :
    a'.Intact derive := by
  cases e with
  | build builder answers =>
      simp only [Service.step] at hstep
      cases hidle : a.app with
      | some app => simp [hidle] at hstep
      | none =>
          simp only [hidle] at hstep
          have hintact := h.build x places huncut.1 huncut.2 hseen builder
          rcases hbuild : a.build x places derive builder answers with ⟨_ | app, b⟩
          · rw [hbuild] at hstep hintact
            cases hstep
            exact hintact
          · rw [hbuild] at hstep
            cases hstep
            exact (h.build_some hbuild huncut.1 huncut.2 hseen).2
  | endAtKey builder answers =>
      simp only [Service.step] at hstep
      cases hidle : a.app with
      | some app => simp [hidle] at hstep
      | none =>
          simp only [hidle] at hstep
          cases hstep
          exact h.obtainKey huncut.1 hseen
  | endAtSettings builder answers =>
      simp only [Service.step] at hstep
      cases hidle : a.app with
      | some app => simp [hidle] at hstep
      | none =>
          simp only [hidle] at hstep
          cases hstep
          exact h.build x places huncut.1 huncut.2 hseen builder
  | setConfig config =>
      cases hrunning : a.app with
      | none => simp [Service.step, hrunning] at hstep
      | some app =>
          simp only [Service.step, hrunning] at hstep
          cases hstep
          exact ⟨h.key, h.settings, h.built⟩
  | save answer =>
      cases hrunning : a.app with
      | none => simp [Service.step, hrunning] at hstep
      | some app =>
          simp only [Service.step, hrunning] at hstep
          cases hstep
          exact h.save huncut app
  | endAtSave answer =>
      cases hrunning : a.app with
      | none => simp [Service.step, hrunning] at hstep
      | some app =>
          simp only [Service.step, hrunning] at hstep
          cases hstep
          have hsaved := h.save (x := x) huncut app
          exact ⟨hsaved.key, hsaved.settings, hsaved.built⟩
  | exit =>
      cases hstep
      exact ⟨h.key, h.settings, h.built⟩

def BuildAnswers.granted (secret : Bytes 32) : BuildAnswers :=
  { secret := secret
    seeKey := true
    readKey := .ok ()
    writeKey := .done
    seeSettings := true
    readSettings := .ok ()
    writeSettings := .done }

theorem Service.Intact.build_granted {a : Service T} (h : a.Intact derive) (places : Places)
    (hdefault : ∃ text, x.toStringPretty x.default = .ok text) (builder : AppBuilder)
    (secret : Bytes 32) :
    ∃ app a', a.build x places derive builder (BuildAnswers.granted secret) = (some app, a') := by
  obtain ⟨text, htext⟩ := hdefault
  have hprintKey : (keyFormat.print secret).isSome := rfl
  obtain ⟨drawn, hdrawn⟩ := Stored.exists_obtain h.key hprintKey
  have hprint : (x.format.print x.default).isSome := by
    simp [ConfigType.format, htext, Except.toOption]
  obtain ⟨config, hconfig⟩ :=
    Stored.exists_obtain (h.settings (builder.settingsPath places)) hprint
  let b : Service T := (a.obtainKey (BuildAnswers.granted secret)).2
  have hkey : a.obtainKey (BuildAnswers.granted secret) = (some drawn, b) :=
    Prod.ext hdrawn rfl
  have hsettings : b.obtainSettings x (BuildAnswers.granted secret) (builder.settingsPath places) =
      (some config,
        (b.obtainSettings x (BuildAnswers.granted secret) (builder.settingsPath places)).2) :=
    Prod.ext hconfig rfl
  unfold Service.build
  rw [hkey]
  simp only
  rw [hsettings]
  exact ⟨_, _, rfl⟩

theorem intact_of_run (hx : x.ReadsBack) {s : Machine T}
    (hrun : Run Machine.Fresh (fun s e s' => s.step x places derive e = some s')
      (fun _ e => e.Uses places service ∧ e.Uncut ∧ e.SeesKey) s) :
    ∃ a : Service T, a.Represents x (places.defaultKeyPathFor service) s ∧ a.Intact derive := by
  refine Run.invariant (I := fun s => ∃ a : Service T,
    a.Represents x (places.defaultKeyPathFor service) s ∧ a.Intact derive) ?_ ?_ hrun
  · intro s hfresh
    obtain ⟨a, ⟨hkey, hsettings, -, hbuilt⟩, hrep⟩ := exists_represents_of_fresh hfresh
    refine ⟨a, hrep, by simp [hkey], by simp [hsettings], by simp [hbuilt]⟩
  · rintro s e s' ⟨a, hrep, hintact⟩ ⟨huses, huncut, hseen⟩ hstep
    obtain ⟨a', hstep', hrep'⟩ := hrep.step hx huses hstep
    exact ⟨a', hrep', hintact.step huncut hseen hstep'⟩

/-- If no write is cut short and every look at the key file succeeds, then whatever else fails and
wherever the processes end, the next build in which everything succeeds returns an application, with
the key of all those before. -/
theorem uncut_runs_start_again (hx : x.ReadsBack)
    (hdefault : ∃ text, x.toStringPretty x.default = .ok text) {s : Machine T}
    (hrun : Run Machine.Fresh (fun s e s' => s.step x places derive e = some s')
      (fun _ e => e.Uses places service ∧ e.Uncut ∧ e.SeesKey) s)
    {builder : AppBuilder} (hservice : builder.service = service)
    (hne : builder.settingsPath places ≠ places.defaultKeyPathFor service) (secret : Bytes 32) :
    ∃ app files,
      builder.build x places derive (BuildAnswers.granted secret) s.files = (.ok app, files) ∧
      ∀ app' ∈ s.built, app'.keypair = app.keypair := by
  subst hservice
  obtain ⟨a, hrep, hintact⟩ := intact_of_run hx hrun
  obtain ⟨app, a', hbuild⟩ := hintact.build_granted places hdefault builder secret
  have huncut : WriteAnswer.Uncut .done := fun _ => by simp [WriteAnswer.ending]
  have hsame := (hintact.build_some hbuild huncut huncut rfl).1
  have hresult := (hrep.keeps.build hx hne derive (BuildAnswers.granted secret)).1
  rw [hbuild] at hresult
  rcases hfiles : builder.build x places derive (BuildAnswers.granted secret) s.files with
    ⟨err | app', files⟩
  · rw [hfiles] at hresult
    cases hresult
  · rw [hfiles] at hresult
    cases hresult
    exact ⟨app, files, rfl, hrep.built ▸ hsame⟩

end Simulation

/-! ## A service with one setting -/

def verboseText (verbose : Bool) : String :=
  if verbose then "\x7b\n  \"verbose\": true\n\x7d" else "\x7b\n  \"verbose\": false\n\x7d"

def verboseConfig : ConfigType Bool :=
  { default := false
    toStringPretty := fun verbose => .ok (verboseText verbose)
    fromStr := fun text =>
      if text = verboseText true then .ok true
      else if text = verboseText false then .ok false
      else .error "EOF while parsing an object" }

theorem verboseConfig_readsBack : verboseConfig.ReadsBack where
  fromStr_toStringPretty := by
    rintro verbose _ ⟨⟩
    cases verbose <;> rfl
  fromStr_front := by
    rintro verbose _ front ⟨⟩ hfront hne
    have hother : ∀ verbose', front ≠ verboseText verbose' := by
      rintro verbose' rfl
      cases verbose <;> cases verbose'
      · exact hne rfl
      · revert hfront
        decide
      · revert hfront
        decide
      · exact hne rfl
    refine ⟨"EOF while parsing an object", ?_⟩
    simp only [verboseConfig]
    rw [if_neg (hother true), if_neg (hother false)]

def homePlaces : Places :=
  { defaultKeyPathFor := fun service => [".local", "share", service, "keys", "signing.key"]
    defaultSettingsPath := fun service => [".config", service, "settings.json"] }

def nodeBuilder : AppBuilder :=
  (AppBuilder.new "craftobj").withAppType .node

def sevens : BuildAnswers :=
  BuildAnswers.granted ⟨List.replicate 32 7, rfl⟩

def emptyMachine : Machine Bool :=
  { files := fun _ => none
    app := none
    built := [] }

theorem emptyMachine_fresh : emptyMachine.Fresh :=
  ⟨fun _ => rfl, rfl, rfl⟩

theorem nodeBuilder_uses (answers : BuildAnswers) :
    StartupEvent.Uses (T := Bool) homePlaces "craftobj" (.build nodeBuilder answers) :=
  ⟨rfl, by decide⟩

/-- The process ends when five bytes of the settings are written. -/
theorem startup_refines_cut :
    ∃ s : Machine Bool,
      s.files [".config", "craftobj", "settings.json"] =
        some ((utf8 (verboseText true)).take 5) ∧
      ∃ a : Service Bool,
        a.Represents verboseConfig (homePlaces.defaultKeyPathFor "craftobj") s := by
  have hempty : Run Machine.Fresh
      (fun s e s' => s.step verboseConfig homePlaces id e = some s')
      (fun _ e => e.Uses homePlaces "craftobj") emptyMachine := Run.start emptyMachine_fresh
  have hbuilt := hempty.step (nodeBuilder_uses sevens) rfl
  have hset := hbuilt.step (e := StartupEvent.setConfig true) trivial rfl
  have hcut := hset.step
    (e := StartupEvent.endAtSave (.stopped 5 "No space left on device")) trivial rfl
  obtain ⟨a, -, hrep⟩ := startup_refines verboseConfig_readsBack hcut
  exact ⟨_, rfl, a, hrep⟩

/-- The application was built once and saved as verbose; its process has ended. -/
def verboseMachine : Machine Bool :=
  let keyPath := homePlaces.defaultKeyPathFor "craftobj"
  let path := homePlaces.defaultSettingsPath "craftobj"
  { files := Function.update
      (Function.update (Function.update (fun _ => none) keyPath (some sevens.secret.bytes)) path
        (some (utf8 (verboseText false))))
      path (some (utf8 (verboseText true)))
    app := none
    built := [nodeBuilder.app homePlaces id sevens.secret false] }

/-- A verbose service stays verbose, also after a process that ends while it loads the settings. -/
theorem last_save_decides_verbose :
    ∃ s, verboseMachine.step verboseConfig homePlaces id (.endAtSettings nodeBuilder sevens) =
        some s ∧
      ∃ app files, nodeBuilder.build verboseConfig homePlaces id sevens s.files = (.ok app, files) ∧
        app.settings.config = true := by
  have hempty : Run Machine.Fresh
      (fun s e s' => s.step verboseConfig homePlaces id e = some s')
      (fun _ e => e.Uses homePlaces "craftobj") emptyMachine := Run.start emptyMachine_fresh
  have hbuilt := hempty.step (nodeBuilder_uses sevens) rfl
  have hset := hbuilt.step (e := StartupEvent.setConfig true) trivial rfl
  refine ⟨_, rfl, _, _, rfl, ?_⟩
  have hlater : Run (fun s => s = verboseMachine)
      (fun s e s' => s.step verboseConfig homePlaces id e = some s')
      (fun s e => e.Uses homePlaces "craftobj" ∧
        s.Leaves homePlaces (homePlaces.defaultSettingsPath "craftobj") e) verboseMachine :=
    Run.start rfl
  have hended := hlater.step (e := StartupEvent.endAtSettings nodeBuilder sevens)
    ⟨nodeBuilder_uses sevens, fun _ => rfl⟩ rfl
  exact (last_save_decides (e := StartupEvent.endAtSave .done) verboseConfig_readsBack hset rfl
    (Or.inr rfl) rfl rfl (by decide) hended rfl rfl rfl
    (show nodeBuilder.build verboseConfig homePlaces id sevens _ = _ from rfl)).1

/-- The key of the application that was saved is that of the next one. -/
theorem uncut_runs_start_again_twice :
    ∃ app files,
      nodeBuilder.build verboseConfig homePlaces id sevens verboseMachine.files =
        (.ok app, files) ∧
      ∀ app' ∈ verboseMachine.built, app'.keypair = app.keypair := by
  have huncut : WriteAnswer.Uncut .done := by
    rintro count ⟨⟩
  have hempty : Run Machine.Fresh
      (fun s e s' => s.step verboseConfig homePlaces id e = some s')
      (fun _ e => e.Uses homePlaces "craftobj" ∧ e.Uncut ∧ e.SeesKey) emptyMachine :=
    Run.start emptyMachine_fresh
  have hbuilt := hempty.step (e := StartupEvent.build nodeBuilder sevens)
    ⟨nodeBuilder_uses sevens, ⟨huncut, huncut⟩, rfl⟩ rfl
  have hset := hbuilt.step (e := StartupEvent.setConfig true) ⟨trivial, trivial, trivial⟩ rfl
  have hsaved : Run Machine.Fresh
      (fun s e s' => s.step verboseConfig homePlaces id e = some s')
      (fun _ e => e.Uses homePlaces "craftobj" ∧ e.Uncut ∧ e.SeesKey) verboseMachine :=
    hset.step (e := StartupEvent.endAtSave .done) ⟨trivial, huncut, trivial⟩ rfl
  exact uncut_runs_start_again verboseConfig_readsBack ⟨_, rfl⟩ hsaved rfl (by decide) _

end Startup
end CraftecCore
