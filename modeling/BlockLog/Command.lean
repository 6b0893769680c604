import BlockLog.Command.Dump
import BlockLog.Command.RoundTrip
import BlockLog.Command.Stress

/-! The program: a command line and the files there are give a report. -/

namespace BlockLog.Command

/-- Do what a command line asks for. -/
def perform (files : FileTree) (options : Options) : Report :=
  match options.task with
  | .roundtrip input chunk => roundtrip files options.device options.settings input chunk
  | .stress threads records size =>
    stress files options.device options.settings threads records size []
  | .dump offset len => dump files options.device options.settings offset len

/-- The line with the name and the version of the program. -/
def versionLine : String := "logfs-cli 0.1.0"

/-- Run the program on the words of a command line. -/
def run (files : FileTree) (words : List String) : Report :=
  match Options.parse words with
  | .error .misuse => { files, lines := [], ending := .misuse }
  | .error .version => { files, lines := [versionLine], ending := .success }
  | .ok options => perform files options

end BlockLog.Command
