import Stencil.Command.Options
import Stencil.Hugo.Export
import Stencil.Journal
import Stencil.Json.Reader

namespace Stencil.Command

def versionText : String := "0.4.0"

def usage : String :=
  "staticshape " ++ versionText ++ "\n" ++
  "Usage:\n" ++
  "  staticshape [--help] [--version|--ver]\n" ++
  "  staticshape --write-config PATH\n" ++
  "  staticshape --from-dir FROM_DIR --to-dir TO_DIR [options]\n\n" ++
  "Options:\n" ++
  "  --config PATH                Site config JSON (collections, include globs, content selectors)\n" ++
  "  --write-config PATH          Write the default site config JSON and exit\n" ++
  "  --engine NAME                Export engine (default: hugo)\n" ++
  "  --verbose                    Verbose progress logs\n" ++
  "  --debug                      Debug logs + .debug snapshots in the output directory\n"

def synopsis : String :=
  "usage: staticshape [--help] [--version] [--ver] [--from-dir FROM_DIR]\n" ++
  "                   [--to-dir TO_DIR] [--config CONFIG]\n" ++
  "                   [--write-config WRITE_CONFIG] [--engine ENGINE] [--verbose]\n" ++
  "                   [--debug]\n"

inductive Complaint
  | options (e : OptionError)
  | foldersRequired
  | unknownEngine (name : String)
  | noSource (path : String)
  | targetNoFolder (path : String)
  | targetNotEmpty (path : String)
  | noConfig (path : String)
  | badConfig (f : Failure)
  | unwritableConfig (path : String)
  | build (f : Failure)

namespace Complaint

def blamesRequest (f : Failure) : Bool :=
  match f.family with
  | .config | .argument | .encoding => true
  | _ => false

def message : Complaint → String
  | options e => synopsis ++ "staticshape: error: " ++ e.message
  | foldersRequired =>
    "Options --from-dir and --to-dir are required unless --write-config or --version/--ver is used"
  | unknownEngine name => (Failure.unknownEngine name).message
  | noSource path => "Source directory not found: " ++ path
  | targetNoFolder path => "Output path is not a directory: " ++ path
  | targetNotEmpty path => "Output directory must be empty: " ++ path
  | noConfig path => "Config file not found: " ++ path
  | badConfig f => f.message
  | unwritableConfig path => "Unable to write config file " ++ path
  | build f =>
    if blamesRequest f then "Invalid configuration: " ++ f.message else "Build failed: " ++ f.message

def code : Complaint → Nat
  | options _ => 2
  | targetNoFolder _ | targetNotEmpty _ => 7
  | build f => if blamesRequest f then 6 else if f.family = .storage then 1 else 8
  | _ => 6

end Complaint

structure Outcome where
  code : Nat
  output : String := ""
  lines : List LogLine := []
  complaint : Option Complaint := none
  tree : FileTree

namespace Outcome

def ofComplaint (tree : FileTree) (c : Complaint) : Outcome :=
  { code := c.code, complaint := some c, tree }

def errorText (o : Outcome) : String :=
  String.join (o.lines.map fun l => l.text ++ "\n") ++
    (match o.complaint with
      | some c => c.message ++ "\n"
      | none => "")

end Outcome

structure Place where
  here : List String
  home : List String

namespace Place

def straighten (parts : List String) : List String :=
  (parts.foldl (fun path part => if part == ".." then path.tail else part :: path) []).reverse

def resolve (p : Place) (s : String) : List String :=
  let path := Pathname.ofText s
  straighten (
    if !path.root.isEmpty then path.parts
    else match path.parts with
      | "~" :: rest => p.home ++ rest
      | parts => p.here ++ parts)

end Place

def pathText (path : List String) : String :=
  "/" ++ "/".intercalate path

def writeConfig (p : Place) (tree : FileTree) (verbose : Bool) (target : String) : Outcome :=
  let path := p.resolve target
  match tree.write [] path (SiteConfig.standard.toJson.text ++ "\n").toUTF8 with
  | some tree =>
    { code := 0, tree
      output := if verbose then "Default config written to " ++ pathText path ++ "\n" else "" }
  | none => .ofComplaint tree (.unwritableConfig (pathText path))

structure Job where
  source : List String
  target : List String
  config : SiteConfig
  verbose : Bool
  debug : Bool

namespace Job

def readConfig (tree : FileTree) (path : List String) : Except Complaint SiteConfig :=
  match tree.bytes? path with
  | none => .error (.noConfig (pathText path))
  | some _ =>
    match (tree.readText path).toOption.bind Json.ofText? with
    | none => .error (.badConfig (.unreadableConfig (pathText path)))
    | some j =>
      match SiteConfig.ofJson (pathText path) j with
      | .ok config => .ok config
      | .error f => .error (.badConfig f)

def ofOptions (p : Place) (tree : FileTree) (o : Options) : Except Complaint Job := do
  let (source, target) ← match o.fromDir, o.toDir with
    | some source, some target => pure (p.resolve source, p.resolve target)
    | _, _ => throw .foldersRequired
  let engine := o.engine.getD "hugo"
  if engine != "hugo" then throw (.unknownEngine engine)
  if !((tree.get? source).any FileTree.isFolder) then throw (.noSource (pathText source))
  match tree.get? target with
  | none => pure ()
  | some (.file _) => throw (.targetNoFolder (pathText target))
  | some (.folder entries) =>
    if !entries.isEmpty then throw (.targetNotEmpty (pathText target))
  let config ← match o.config with
    | none => pure SiteConfig.standard
    | some file => readConfig tree (p.resolve file)
  return { source, target, config, verbose := o.verbose, debug := o.debug }

def threshold (j : Job) : Level :=
  if j.debug then .debug else if j.verbose then .info else .warning

variable (α : Type) [Grade α]

def build (j : Job) (tree : FileTree) : Merge (List Hugo.Output) := do
  let listing := Site.listing ((tree.get? j.source).getD .empty)
  let site ← Site.build α j.config (Site.reader tree j.source) j.verbose listing
  Hugo.exportTo ⟨"/", j.target⟩ site

def journal (t : Trace) : Journal :=
  (t.reverse.foldl Journal.record (Journal.listen {})).close

def writeJournal (target : List String) (tree : FileTree) :
    List (Pathname × String) → Except Failure FileTree
  | [] => .ok tree
  | (path, text) :: rest =>
    let base := if path.root.isEmpty then target else []
    match tree.write base path.parts text.toUTF8 with
    | some tree => writeJournal target tree rest
    | none => .error (.blocked path.text)

def run (j : Job) (tree : FileTree) : Outcome :=
  match tree.makeFolders j.target with
  | none => .ofComplaint tree (.build (.blocked (pathText j.target)))
  | some tree =>
    let (result, state) := (j.build α tree).run.run {}
    let lines := state.trace.lines.filter fun l => j.threshold.rank ≤ l.level.rank
    let files := if j.debug then (journal state.trace).files else []
    let finish : Except Failure (FileTree × List LogLine) := do
      let outputs ← result
      let tree ← Hugo.writeOutputs j.source j.target tree outputs
      let done : LogLine := ⟨.info,
        s!"Export complete: {outputs.length} file(s) written to {pathText j.target}"⟩
      return (tree, if j.verbose then [done] else [])
    let written (t : FileTree) := (writeJournal j.target t files).toOption.getD t
    match finish with
    | .ok (tree, last) => { code := 0, lines := lines ++ last, tree := written tree }
    | .error f => { Outcome.ofComplaint (written tree) (.build f) with lines }

end Job

def paths (p : Place) (args : List String) : List (List String × Bool) :=
  match Options.ofArguments args with
  | .error _ => []
  | .ok o =>
    [(o.fromDir, true), (o.toDir, false), (o.config, false), (o.writeConfig, false)].filterMap
      fun (path, deep) => path.map fun s => (p.resolve s, deep)

def run (α : Type) [Grade α] (p : Place) (tree : FileTree) (args : List String) : Outcome :=
  match Options.ofArguments args with
  | .error e => .ofComplaint tree (.options e)
  | .ok o =>
    if o.surplus then { code := 2, output := usage, tree }
    else if args.isEmpty || o.help then { code := 0, output := usage, tree }
    else if o.version then { code := 0, output := versionText ++ "\n", tree }
    else match o.writeConfig with
      | some target => writeConfig p tree o.verbose target
      | none =>
        match Job.ofOptions p tree o with
        | .ok job => job.run α tree
        | .error .foldersRequired =>
          { Outcome.ofComplaint tree .foldersRequired with output := usage }
        | .error c => .ofComplaint tree c

end Stencil.Command
