/-
  HybridAccess — a usual machine.

  `Files.usual` holds what is found on nearly every host: the directories of
  the system, a few files of which only matters that they are there, and
  common programs. A directory to work in is added to it.
-/
import HybridAccess.Host.Command

namespace HybridAccess.Host

namespace Program

/-- The programs that take any arguments. -/
def tolerant : List (String × Program) :=
  [("echo", echo), ("true", succeed)]

/-- The programs that complain about the arguments they are given, by the status they end with. -/
def complaining : List (Nat × List String) :=
  [(2, ["[", "awk", "cmp", "dash", "diff", "dir", "egrep", "expr", "fgrep", "grep", "ls", "perl",
      "printenv", "sh", "sort", "test", "tty"]),
    (125, ["nice", "nohup", "timeout"]),
    (127, ["bash", "env"]),
    (1, ["basename", "cat", "chgrp", "chmod", "chown", "cp", "cut", "date", "dd", "df", "dirname",
      "dmesg", "du", "false", "find", "groups", "gzip", "head", "hostname", "id", "install", "ln",
      "login", "md5sum", "mkdir", "mkfifo", "mknod", "mktemp", "more", "mount", "mv", "nl",
      "nproc", "od", "passwd", "paste", "printf", "pwd", "readlink", "realpath", "rev", "rm",
      "rmdir", "sed", "seq", "sha256sum", "sleep", "split", "stat", "stty", "su", "sum", "sync",
      "tac", "tail", "tar", "tee", "touch", "tr", "truncate", "umount", "uname", "uniq", "unlink",
      "wc", "who", "whoami", "xargs", "yes"])]

/-- All programs of a usual machine. -/
def usual : List (String × Program) :=
  tolerant ++ complaining.flatMap fun (status, names) => names.map (·, fail status)

end Program

namespace Node

/-- A directory with nothing in it. -/
def empty : Node := .directory []

/-- A directory with empty directories. -/
def directories (names : List String) : Node := .directory (names.map (·, empty))

/-- A file with a text. -/
def ofText (text : String) : Node := .file (Bytes.ofText text)

end Node

namespace Files

/-- The settings of the system. -/
def settings : Entries :=
  [("passwd", .ofText "root:x:0:0:root:/root:/bin/sh\n"), ("group", .ofText "root:x:0:\n"),
    ("shadow", .ofText "root:*:0:0:99999:7:::\n"), ("hosts", .ofText "127.0.0.1\tlocalhost\n"),
    ("hostname", .ofText "localhost\n"), ("resolv.conf", .ofText "nameserver 127.0.0.1\n"),
    ("fstab", .ofText ""), ("profile", .ofText "umask 022\n")]

/-- The devices, and the streams of a program. There is no terminal. -/
def devices : Entries :=
  [("full", .device .full), ("tty", .device .missing), ("stdout", .file []), ("stderr", .file [])] ++
    ["null", "random", "stdin", "urandom", "zero"].map (·, .device .sink)

/-- What the system tells about itself. No interface has an address. -/
def reports : Entries :=
  [("net", .directory [("if_inet6", .file [])]), ("version", .ofText "Linux version\n"),
    ("self", .empty)]

/-- The programs and what belongs to them. -/
def system : Entries :=
  [("bin", .directory (Program.usual.map fun (name, p) => (name, .program p))),
    ("include", .empty), ("lib", .empty), ("lib64", .empty),
    ("local", .directories ["bin", "etc", "include", "lib", "sbin", "share", "src"]),
    ("sbin", .empty), ("share", .empty), ("src", .empty)]

/-- What the root of a usual machine holds. -/
def root : Entries :=
  ["bin", "lib", "lib64", "sbin"].map (fun name => (name, .link ["usr", name])) ++
    [("dev", .directory devices), ("etc", .directory settings), ("proc", .directory reports),
      ("usr", .directory system),
      ("var", .directories ["cache", "lib", "local", "log", "spool", "tmp"])] ++
    ["boot", "home", "media", "mnt", "opt", "root", "run", "srv", "sys", "tmp"].map (·, .empty)

/-- A usual machine, with an empty directory in which relative paths start. -/
def usual (workplace : String) : Files :=
  { ((⟨root, []⟩ : Files).makeDirectories workplace).2 with here := Path.names workplace }

end Files

/-- Where the programs of a usual machine are looked up. -/
def usualSearch : String :=
  "/usr/local/sbin:/usr/local/bin:/usr/sbin:/usr/bin:/sbin:/bin"

end HybridAccess.Host
