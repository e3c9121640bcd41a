/-
  Settings of the bot.

  A setting is given by name, or by a variable of the environment, or has a default; the first of
  these that is there counts, even if it is empty.  Variables are named without regard to case,
  and unknown ones are ignored; unknown names that are given are errors.

  * `Settings.load` reads the settings, or finds everything that is wrong with them: first the
    known settings in order, then the unknown names as they are given.
-/
import MentionCommands.Log.Level

namespace MentionCommands

/-- The settings. -/
structure Settings where
  /-- The name by which the bot is mentioned. -/
  bot : Text
  /-- The least level of log records. -/
  level : Level
  deriving DecidableEq, Repr

namespace Settings

/-- What is given for a setting. -/
inductive Value where
  /-- A text. -/
  | text (t : Text)
  /-- Anything else. -/
  | other
  deriving DecidableEq, Repr

/-- What is wrong with a setting. -/
inductive Fault where
  /-- Something else than a text is given. -/
  | notText
  /-- What is given is not the name of a level. -/
  | notLevel
  /-- There is no such setting. -/
  | unknown
  deriving DecidableEq, Repr

/-- The code of a fault. -/
def Fault.code : Fault → Text
  | notText => "string_type".toList
  | notLevel => "literal_error".toList
  | unknown => "extra_forbidden".toList

/-- The sentence that tells of a fault. -/
def Fault.message : Fault → Text
  | notText => "Input should be a valid string".toList
  | notLevel => "Input should be 'DEBUG', 'INFO', 'WARNING', 'ERROR' or 'CRITICAL'".toList
  | unknown => "Extra inputs are not permitted".toList

/-- A setting with something wrong. -/
structure Issue where
  name : Text
  fault : Fault
  deriving DecidableEq, Repr

/-- The name of the setting for the name of the bot. -/
def botName : Text := "BOT_NAME".toList

/-- The name of the setting for the level of log records. -/
def levelName : Text := "LOG_LEVEL".toList

/-- The settings where nothing is given. -/
def standard : Settings := ⟨"bot".toList, .info⟩

/-- Whether a variable of the environment stands for a setting. -/
def isVariableOf (name variableName : Text) : Bool :=
  variableName.toLowerAscii == Text.toLowerAscii ("BOTCOMMANDS_".toList ++ name)

/-- What is there for a setting; of several variables the last one counts. -/
def find? (environment : List (Text × Text)) (given : List (Text × Value)) (name : Text) :
    Option Value :=
  given.lookup name <|>
    (environment.reverse.find? fun entry => isVariableOf name entry.1).map (.text ·.2)

/-- The name of the bot. -/
def readBot : Option Value → Except Fault Text
  | none => .ok standard.bot
  | some (.text t) => .ok t
  | some .other => .error .notText

/-- The level of log records. -/
def readLevel : Option Value → Except Fault Level
  | none => .ok standard.level
  | some (.text t) => (Level.ofLabel? t).elim (.error .notLevel) .ok
  | some .other => .error .notLevel

/-- What is wrong with a setting that is read. -/
def issuesOf (name : Text) : Except Fault α → List Issue
  | .ok _ => []
  | .error fault => [⟨name, fault⟩]

/-- What is wrong with the given names. -/
def unknownNames (given : List (Text × Value)) : List Issue :=
  (given.filter fun entry => entry.1 != botName && entry.1 != levelName).map
    fun entry => ⟨entry.1, .unknown⟩

/-- Reads the settings. -/
def load (environment : List (Text × Text)) (given : List (Text × Value)) :
    Except (List Issue) Settings :=
  let bot := readBot (find? environment given botName)
  let level := readLevel (find? environment given levelName)
  match bot, level, unknownNames given with
  | .ok bot, .ok level, [] => .ok ⟨bot, level⟩
  | bot, level, unknown => .error (issuesOf botName bot ++ issuesOf levelName level ++ unknown)

/-- What is given in a call, or else what is set; an empty text is as good as none. -/
def choose (given : Option Text) (setting : Text) : Text :=
  match given with
  | none | some [] => setting
  | some (c :: rest) => c :: rest

end Settings

end MentionCommands
