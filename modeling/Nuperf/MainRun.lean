import Nuperf.BuildCommand
import Nuperf.CommandLine
import Nuperf.PluginLoader

set_option autoImplicit false

namespace Nuperf.Cli

open ByteString CStandard Numeral CallProgram

/-- What `print_global_help`, `print_command_help` and `print_group_help` print. -/
inductive HelpPage
  | global
  | command (path : Bytes)
  | group (path : Bytes)
  deriving DecidableEq

/-- `nuperf_version_t`. -/
structure Version where
  major : Nat
  minor : Nat
  patch : Nat
  suffix : Option CString

/-- A `const nuperf_method_t *` or `const nuperf_target_t *`, as far as it is listed. -/
structure ListedDescriptor where
  name : Option CString
  description : Option CString

/-- What `main` asks of the library, the file system and the standard streams. -/
inductive MainCall
  | init
  | shutdown
  | loadPlugins (kind : PluginKind) (dir : Bytes)
  | version
  | registered (kind : PluginKind)
  | page (page : HelpPage)
  | cout (text : Bytes)
  | cerr (text : Bytes)
  | currentPath
  | createDirectories (path : Bytes)
  | writeFile (path text : Bytes)
  | build (c : BuildCall)

/-- What comes back. A loader of plugins may throw, and so may `current_path`. A null
pointer is among the registered descriptors where `nuperf_method_at` returns one. -/
abbrev MainReply : MainCall → Type
  | .init => Status
  | .loadPlugins _ _ => Except CxxException Unit
  | .version => Version
  | .registered _ => List (Option ListedDescriptor)
  | .currentPath => Except CxxException Bytes
  | .build c => BuildReply c
  | _ => Unit

abbrev MainEvent := Event MainCall MainReply

/-- How `main` ends early: by a `return`, or by an exception that nobody catches. -/
inductive Ending
  | returned (code : Nat)
  | terminated (thrown : CxxException)

abbrev MainRun := Program MainCall MainReply Ending

def tell (c : MainCall) : MainRun (MainReply c) := Program.perform c

def orTerminate {α : Type} : Except CxxException α → MainRun α
  | .ok value => pure value
  | .error thrown => .exit (.terminated thrown)

/-- `nuperf_shutdown()` and `return code`. -/
def shutDown (code : Nat) : MainRun Nat := do
  tell .shutdown
  pure code

/-- `std::cerr << d << "\n"` for every line, `nuperf_shutdown()` and `return 1`. -/
def refuse : List Bytes → MainRun Nat
  | [] => shutDown 1
  | line :: rest => do
      tell (.cerr (line ++ ascii "\n"))
      refuse rest

/-- `nuperf_home_dir`. -/
def nuperfHomeDir (home : Option CString) : Bytes :=
  match home with
  | none => []
  | some home => if home.bytes = [] then [] else appendPath home.bytes (ascii ".nuperf")

section Help

/-- The groups that `print_group_help` knows. -/
def helpGroups : List Bytes :=
  [ascii "registry", ascii "registry methods", ascii "registry targets", ascii "build",
   ascii "project"]

def printGroupHelp (group : Bytes) : MainRun Unit :=
  if helpGroups.contains group then tell (.page (.group group))
  else tell (.cerr (ascii "unknown help path: " ++ group ++ ascii "\n"))

def printHelpPath (docs : CommandTable) (tokens : List Bytes) : MainRun Unit :=
  if tokens = [] then tell (.page .global)
  else
    let path := joinWords tokens
    if docs.paths.contains path then tell (.page (.command path)) else printGroupHelp path

def hasHelpFlag (args : List Bytes) : Bool :=
  args.any fun a => a == ascii "--help" || a == ascii "-h"

end Help

section Listing

def versionText (v : Version) : Bytes :=
  decimal v.major ++ ascii "." ++ decimal v.minor ++ ascii "." ++ decimal v.patch ++
    (match v.suffix with
     | none => []
     | some suffix => if suffix.bytes = [] then [] else ascii "-" ++ suffix.bytes) ++
    ascii "\n"

/-- The line of a descriptor in a list. -/
def listedText : Option ListedDescriptor → Bytes
  | none => []
  | some listed =>
      (match listed.name with
       | none => []
       | some name => name.bytes) ++
      (match listed.description with
       | none => []
       | some text => if text.bytes = [] then [] else ascii "\t" ++ text.bytes) ++
      ascii "\n"

/-- The commands that take no arguments. -/
def withoutArguments (rest : List Bytes) (print : MainRun Unit) : MainRun Nat :=
  if rest ≠ [] then refuse [ascii "unexpected positional argument(s)"]
  else do
    print
    shutDown 0

def printVersion : MainRun Unit := do
  let v ← tell .version
  tell (.cout (versionText v))

def printRegistered (kind : PluginKind) : MainRun Unit := do
  let entries ← tell (.registered kind)
  tell (.cout (entries.flatMap listedText))

end Listing

section Init

def sampleText : Bytes := ascii "alpha\nbeta\ngamma\n"

def luaText : Bytes :=
  ascii "-- lnuperf is preloaded by NuPERF Lua runner\n" ++
  ascii "local ks = nuperf.new_keyset()\n" ++
  ascii "ks:add_string('alpha')\n" ++
  ascii "ks:add_string('beta')\n" ++
  ascii "local t = nuperf.new_table()\n" ++
  ascii "t:set_method('stdmeth')\n" ++
  ascii "t:set_target('stddef')\n" ++
  ascii "t:build(ks)\n" ++
  ascii "t:emit_file('out/table.h')\n"

def cmakeText : Bytes :=
  ascii "cmake_minimum_required(VERSION 3.16)\n" ++
  ascii "project(nuperf_user_project C CXX)\n" ++
  ascii "find_package(nuperf REQUIRED)\n" ++
  ascii "add_executable(app main.c)\n" ++
  ascii "target_link_libraries(app PRIVATE nuperf::nuperf)\n"

def makeText : Bytes :=
  ascii "CC ?= cc\n" ++
  ascii "CFLAGS += -I/usr/local/include\n" ++
  ascii "LDFLAGS += -L/usr/local/lib -lnuperf\n" ++
  ascii "all: app\n" ++
  ascii "app: main.c\n\t$(CC) $(CFLAGS) -o $@ $< $(LDFLAGS)\n"

/-- The text of a build file that is supported. -/
def buildFileText (file : Bytes) : Option Bytes :=
  if file = ascii "CMakeLists.txt" then some cmakeText
  else if file = ascii "Makefile" then some makeText
  else none

/-- The loop over `build_files`, with the end of `cmd_project_init`. -/
def writeBuildFiles (root : Bytes) : List Bytes → MainRun Nat
  | [] => do
      tell (.cout (ascii "Initialized NuPERF workspace at " ++ root ++ ascii "\n"))
      pure 0
  | file :: rest =>
      match buildFileText file with
      | some text => do
          tell (.writeFile (appendPath root file) text)
          writeBuildFiles root rest
      | none => do
          tell (.cerr (ascii "unsupported --add-build value: " ++ file ++ ascii "\n"))
          pure 1

/-- `dir.empty() ? current_path() : path(dir)`. -/
def workspaceRoot (dir : Bytes) : MainRun Bytes :=
  if dir = [] then do
    let here ← tell .currentPath
    orTerminate here
  else pure dir

/-- `cmd_project_init`. -/
def cmdProjectInit (dir : Bytes) (buildFiles : List Bytes) : MainRun Nat := do
  let root ← workspaceRoot dir
  tell (.createDirectories (appendPath root (ascii "keys")))
  tell (.createDirectories (appendPath root (ascii "out")))
  tell (.createDirectories (appendPath root (ascii "scripts")))
  tell (.writeFile (appendPath (appendPath root (ascii "keys")) (ascii "keys.txt")) sampleText)
  tell (.writeFile (appendPath (appendPath root (ascii "scripts")) (ascii "build.lua")) luaText)
  writeBuildFiles root buildFiles

end Init

section Main

variable (docs : CommandTable) (host : Host)

/-- The call of `cmd_build_run`. -/
def callBuildRun (args : BuildArguments) : MainRun Nat :=
  (cmdBuildRun host args).within MainCall.build fun _ reply => reply

/-- The branches on `parsed_command.command_path`. -/
def runCommand (parsed : ParsedCommand) : MainRun Nat :=
  let path := parsed.commandPath
  if path = ascii "version" then withoutArguments parsed.rest printVersion
  else if path = ascii "registry methods list" ∨ path = ascii "list-methods" then
    withoutArguments parsed.rest (printRegistered .method)
  else if path = ascii "registry targets list" ∨ path = ascii "list-targets" then
    withoutArguments parsed.rest (printRegistered .target)
  else if path = ascii "build run" ∨ path = ascii "build" then
    match buildArguments parsed.rest with
    | .error lines => refuse lines
    | .ok args => do
        let rc ← callBuildRun host args
        shutDown rc
  else if path = ascii "project init" then
    match initArguments parsed.rest with
    | .error lines => refuse lines
    | .ok (dir, builds) => do
        let rc ← cmdProjectInit dir builds
        shutDown rc
  else
    refuse [ascii "unknown command: " ++ path,
      ascii "run " ++ [0x60] ++ ascii "nuperf help" ++ [0x60] ++ ascii " for command hierarchy"]

/-- What `main` does once the plugins are loaded. -/
def dispatch (argv : List CString) : MainRun Nat :=
  match argv with
  | _ :: first :: more =>
      if first.bytes = ascii "help" then do
        printHelpPath docs (more.map CString.bytes)
        shutDown 0
      else
        let parsed := resolveCommandPath docs argv
        if parsed.commandPath = ascii "--help" ∨ parsed.commandPath = ascii "-h" then do
          tell (.page .global)
          shutDown 0
        else if hasHelpFlag parsed.rest && docs.paths.contains parsed.commandPath then do
          tell (.page (.command parsed.commandPath))
          shutDown 0
        else runCommand host parsed
  | _ => do
      tell (.page .global)
      shutDown 0

/-- `load_method_plugins_from_dir` or `load_target_plugins_from_dir`, whose exceptions nobody
catches. -/
def loadPlugins (kind : PluginKind) (dir : Bytes) : MainRun Unit := do
  let loaded ← tell (.loadPlugins kind dir)
  orTerminate loaded

/-- `main`. -/
def main (home : Option CString) (argv : List CString) : MainRun Nat := do
  let st ← tell .init
  unless st = .ok do
    tell (.cerr (ascii "nuperf_init failed\n"))
    Program.exit (.returned 1)
  let home := nuperfHomeDir home
  loadPlugins .method (appendPath home (ascii "methods"))
  loadPlugins .target (appendPath home (ascii "targets"))
  dispatch docs host argv

end Main

end Nuperf.Cli
