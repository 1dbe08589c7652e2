import OpenQueue.Gen.Emit

/-!
# The files of the modules

`initModule` writes a Makefile and `generateModule` the source, both into a directory named
after the module, which is made if it is not there yet. `generate.sh` empties `policy/` and
runs OQGen on one policy file after the other.
-/

namespace OpenQueue.Gen

open Lib (Text Jre)

/-- The files under `policy/`, by their paths. -/
abbrev Disk := Text → Option Text

def policyDir (modName : Text) : Text := "policy/".toList ++ modName

def makefilePath (modName : Text) : Text := policyDir modName ++ "/Makefile".toList

def modulePath (modName : Text) : Text := policyDir modName ++ "/mod_".toList ++ modName ++ ".c".toList

/-- What stands in a Makefile. -/
def makefile (modName : Text) : Text :=
  "obj-m += ".toList ++ modName ++ ".o\n".toList ++ modName ++ "-objs := mod_".toList ++ modName ++
    ".o ../../routine/routines.o\n".toList

/-- `initModule`. -/
def initModule (modName : Text) (disk : Disk) : Disk :=
  Function.update disk (makefilePath modName) (some (makefile modName))

variable {jre : Jre}

/-- What `generateCode` leaves on the disk. -/
def OQGen.writeModule (gen : OQGen jre.Double) (disk : Disk) : Disk :=
  match gen.port with
  | none => disk
  | some port =>
    let modName := OQGen.getModuleName jre port.name
    let disk := initModule modName disk
    match gen.generateModule with
    | none => disk
    | some code => Function.update disk (modulePath modName) (some code)

/-- What `java OQGen` leaves on the disk, for the text of a policy file. -/
def runOQGen (jre : Jre) (files : Text → Option Text) (disk : Disk) (text : Text) : Disk :=
  match parsePolicyFile jre files text with
  | .error _ => disk
  | .ok gen =>
    match gen.isWellDefined with
    | .error _ => disk
    | .ok () => gen.writeModule disk

/-- The loop of `generate.sh` over the policy files, after `rm -rf policy`. -/
def generateAll (jre : Jre) (files : Text → Option Text) (texts : List Text) : Disk :=
  texts.foldl (runOQGen jre files) fun _ => none

end OpenQueue.Gen
