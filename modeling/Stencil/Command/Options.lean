import Stencil.Text.Digit
import Stencil.Text.Quoted

namespace Stencil.Command

inductive OptionName
  | help | version | ver | fromDir | toDir | config | writeConfig | engine | verbose | debug
  deriving DecidableEq

namespace OptionName

def all : List OptionName :=
  [help, version, ver, fromDir, toDir, config, writeConfig, engine, verbose, debug]

def text : OptionName → String
  | help => "--help"
  | version => "--version"
  | ver => "--ver"
  | fromDir => "--from-dir"
  | toDir => "--to-dir"
  | config => "--config"
  | writeConfig => "--write-config"
  | engine => "--engine"
  | verbose => "--verbose"
  | debug => "--debug"

def takesValue : OptionName → Bool
  | fromDir | toDir | config | writeConfig | engine => true
  | _ => false

end OptionName

inductive OptionError
  | ambiguous (given : String) (candidates : List OptionName)
  | missingValue (name : OptionName)
  | surplusValue (name : OptionName) (value : String)
  deriving DecidableEq

namespace OptionError

def message : OptionError → String
  | ambiguous given candidates =>
    "ambiguous option: " ++ given ++ " could match " ++ ", ".intercalate (candidates.map (·.text))
  | missingValue name => "argument " ++ name.text ++ ": expected one argument"
  | surplusValue name value =>
    "argument " ++ name.text ++ ": ignored explicit argument " ++ Text.quoted value

end OptionError

inductive Word
  | option (name : OptionName) (value : Option String)
  | plain (text : String)
  | unknown

namespace Word

def isNegativeNumber (cs : List Char) : Bool :=
  let cs := if cs.getLast? == some '\n' then cs.dropLast else cs
  match cs with
  | '-' :: number =>
    let places := number.dropWhile Text.isDecimal
    match places with
    | [] => !number.isEmpty
    | '.' :: places => !places.isEmpty && places.all Text.isDecimal
    | _ => false
  | _ => false

def splitValue (cs : List Char) : String × Option String :=
  let name := cs.takeWhile (· != '=')
  (String.ofList name, match cs.drop name.length with
    | [] => none
    | _ :: value => some (String.ofList value))

def ofNoOption (s : String) : Word :=
  if isNegativeNumber s.toList || s.toList.contains ' ' then plain s else unknown

def ofArgument (s : String) : Except OptionError Word :=
  let (name, value) := splitValue s.toList
  match OptionName.all.find? fun o => o.text == name with
  | some o => .ok (option o value)
  | none =>
    if !s.startsWith "-" || s == "-" then .ok (plain s)
    else if !s.startsWith "--" then .ok (ofNoOption s)
    else match OptionName.all.filter fun o => o.text.startsWith name with
      | [] => .ok (ofNoOption s)
      | [o] => .ok (option o value)
      | candidates => .error (.ambiguous s candidates)

def ofArguments : List String → Except OptionError (List Word)
  | [] => .ok []
  | s :: rest =>
    if s == "--" then .ok (unknown :: rest.map plain)
    else do
      let word ← ofArgument s
      let words ← ofArguments rest
      return word :: words

end Word

structure Options where
  help : Bool := false
  version : Bool := false
  verbose : Bool := false
  debug : Bool := false
  fromDir : Option String := none
  toDir : Option String := none
  config : Option String := none
  writeConfig : Option String := none
  engine : Option String := none
  surplus : Bool := false

namespace Options

def turnOn (o : Options) : OptionName → Options
  | .help => { o with help := true }
  | .version | .ver => { o with version := true }
  | .verbose => { o with verbose := true }
  | .debug => { o with debug := true }
  | _ => o

def put (o : Options) (name : OptionName) (value : String) : Options :=
  let value := if value.isEmpty then none else some value
  match name with
  | .fromDir => { o with fromDir := value }
  | .toDir => { o with toDir := value }
  | .config => { o with config := value }
  | .writeConfig => { o with writeConfig := value }
  | .engine => { o with engine := value }
  | _ => o

def ofWords (o : Options) : List Word → Except OptionError Options
  | [] => .ok o
  | .plain _ :: rest | .unknown :: rest => ofWords { o with surplus := true } rest
  | .option name (some value) :: rest =>
    if name.takesValue then ofWords (o.put name value) rest else .error (.surplusValue name value)
  | .option name none :: rest =>
    if !name.takesValue then ofWords (o.turnOn name) rest
    else match rest with
      | .plain value :: rest => ofWords (o.put name value) rest
      | _ => .error (.missingValue name)

def ofArguments (args : List String) : Except OptionError Options := do
  ofWords {} (← Word.ofArguments args)

end Options

end Stencil.Command
