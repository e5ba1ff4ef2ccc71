import Placement.CommandLine

/-!
What the program says about itself.
-/

namespace Placement.CommandLine

def usage : String := "Usage: keyplace [OPTIONS] <COMMAND>"

def helpText : String := "\n".intercalate [
  "Registry-placed CRUD workloads over independent Redis nodes",
  "",
  usage,
  "",
  "Commands:",
  "  insert  Insert a new record",
  "  read    Read a record, optionally restricted to some fields",
  "  update  Overwrite fields of an existing record",
  "  delete  Delete a record",
  "  scan    Scan records from the index position of a start key",
  "  flush   Drop every key on every node",
  "  stats   Print the number of keys held by each node",
  "  help    Print this message or the help of the given subcommand(s)",
  "",
  "Options:",
  "  -c, --config <CONFIG>  Path to configuration file [default: config.yaml]",
  "  -t, --table <TABLE>    Table name passed through to every record operation [default: usertable]",
  "  -h, --help             Print help"]

end Placement.CommandLine
