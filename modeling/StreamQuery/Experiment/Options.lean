import StreamQuery.Experiment

/-!
# Command line options

What an experiment is asked to do on the command line. `Options.settings` lists the options with
their values; the help text and the parser both follow this list.
-/

namespace StreamQuery

/-- What is asked for. -/
structure Options where
  /-- The settings of the experiment. -/
  experiment : Experiment := {}
  /-- Print the query plan as a graph, in place of a trial. -/
  printsGraph : Bool := false
  /-- Print the help text. -/
  asksHelp : Bool := false
  /-- Say what goes on. -/
  isVerbose : Bool := true

/-- Why the command line cannot be understood. -/
inductive OptionError where
  | unknown (name : String)
  | missingValue (name : String)
  | notNumber (text : String)
  | mode (error : ControlError)
  deriving DecidableEq

/-- The message of an option error. -/
def OptionError.message : OptionError → String
  | unknown name => "unknown option: " ++ name
  | missingValue name => "a value is required: " ++ name
  | notNumber text => "not a number: " ++ text
  | mode error => error.message

namespace Options

/-- The natural number with the given decimal digits. -/
def natural (text : String) : Except OptionError Nat :=
  let digits := text.toList
  if digits.isEmpty || !digits.all Char.isDigit then
    .error (.notNumber text)
  else
    .ok (digits.foldl (fun value digit => 10 * value + (digit.toNat - '0'.toNat)) 0)

/-- The integer with the given decimal digits, after a sign if it is negative. -/
def integer (text : String) : Except OptionError Int :=
  match text.toList with
  | '-' :: digits =>
    match natural (String.ofList digits) with
    | .ok magnitude => .ok (-magnitude)
    | .error _ => .error (.notNumber text)
  | _ => (natural text).map Int.ofNat

/-- A span of time in nanoseconds, given in microseconds. -/
def span (text : String) : Except OptionError Nat :=
  (natural text).map (1000 * ·)

/-- An option with a value. -/
structure Setting where
  /-- The names of the option. -/
  names : List String
  /-- What the option sets. -/
  meaning : String
  /-- Sets it from the text of its value. -/
  assign : String → Options → Except OptionError Options

/-- A setting of the experiment. -/
def Setting.ofField {α : Type} (names : List String) (meaning : String)
    (read : String → Except OptionError α) (set : α → Experiment → Experiment) : Setting where
  names := names
  meaning := meaning
  assign text options := do
    let value ← read text
    return { options with experiment := set value options.experiment }

/-- The options with values. -/
def settings : List Setting :=
  [.ofField ["--method", "-m"] "concurrency control: none, optimistic, 2pl or snapshot"
      (fun text => (Mode.parse text).mapError .mode)
      (fun mode experiment => { experiment with mode }),
    .ofField ["--txn-joint-count"] "commits joined into one transaction" natural
      (fun jointCount experiment => { experiment with jointCount }),
    .ofField ["--batch-count"] "evaluations in one wake-up" natural
      (fun batchCount experiment => { experiment with batchCount }),
    .ofField ["--update-interval"] "pause between relation updates, in microseconds" span
      (fun updateInterval experiment => { experiment with updateInterval }),
    .ofField ["--update-time"] "time an update keeps the relation, in microseconds" span
      (fun updateTime experiment => { experiment with updateTime }),
    .ofField ["--purchase-interval"] "pause between purchases, in microseconds" span
      (fun purchaseInterval experiment => { experiment with purchaseInterval }),
    .ofField ["--purchase-count", "-n"] "number of purchases" natural
      (fun purchaseCount experiment => { experiment with purchaseCount }),
    .ofField ["--goods-count"] "number of goods" integer
      (fun goodsCount experiment => { experiment with goodsCount }),
    .ofField ["--max-price"] "price that none reaches" integer
      (fun maxPrice experiment => { experiment with maxPrice }),
    .ofField ["--min-price"] "lowest price" integer
      (fun minPrice experiment => { experiment with minPrice }),
    .ofField ["--window-width"] "width of the window, in tuples" natural
      (fun windowWidth experiment => { experiment with windowWidth }),
    .ofField ["--window-stride"] "stride of the window, in tuples" natural
      (fun windowStride experiment => { experiment with windowStride }),
    { names := ["--log-level"]
      meaning := "what to say while running: info, debug and trace say more"
      assign text options :=
        .ok { options with isVerbose := ["info", "debug", "trace"].contains text } }]

/-- The help text. -/
def help : String :=
  "Windowed stream queries over concurrently updated relations\n\nOptions:\n" ++
    String.join (settings.map fun setting =>
      "  " ++ ", ".intercalate setting.names ++ " VALUE\n      " ++ setting.meaning ++ "\n") ++
    "  --dot\n      print the query plan as a graph\n  --help, -h\n      print this text\n"

/-- Splits an argument with its value behind an equals sign. -/
def splitArgument (argument : String) : List String :=
  let name := argument.toList.takeWhile (· ≠ '=')
  match argument.toList.drop name.length with
  | _ :: value => if name.take 2 = ['-', '-'] then [.ofList name, .ofList value] else [argument]
  | [] => [argument]

/-- Reads arguments, later ones in favour of earlier ones. -/
def read (options : Options) : List String → Except OptionError Options
  | [] => .ok options
  | "--dot" :: rest => read { options with printsGraph := true } rest
  | "--help" :: rest => read { options with asksHelp := true } rest
  | "-h" :: rest => read { options with asksHelp := true } rest
  | [name] =>
    .error (if settings.any (·.names.contains name) then .missingValue name else .unknown name)
  | name :: value :: rest => do
    match settings.find? (·.names.contains name) with
    | some setting => read (← setting.assign value options) rest
    | none => throw (.unknown name)

/-- The options that arguments stand for. -/
def ofArguments (arguments : List String) : Except OptionError Options :=
  read {} (arguments.flatMap splitArgument)

end Options

end StreamQuery
