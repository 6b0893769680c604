import BlockLog.Command.Options
import BlockLog.Command.Report
import BlockLog.Log.Handle

/-! A command at work on a log over a file. What it does gives the lines to print, or it ends
    without any. After lines it closes the log, and an error in that is the command's; otherwise the
    log is closed too, and only how the work ended counts. The file is saved either way. -/

namespace BlockLog.Command

/-- Open the log of a command, let it work, and close the log. -/
def withLog (files : FileTree) (device : String) (settings : Settings)
    (work : Log Device.File → Log Device.File × Except Ending (List String)) : Report :=
  match Log.openAt files device settings with
  | (files, .error e) => { files, lines := [], ending := .failure (.log e) }
  | (files, .ok log) =>
    let (log, result) := work log
    let (device, closed) := log.close
    let files := device.saveTo files
    match result, closed with
    | .error ending, _ => { files, lines := [], ending }
    | .ok lines, .error e => { files, lines, ending := .failure (.log e) }
    | .ok lines, .ok () => { files, lines, ending := .success }

end BlockLog.Command
