/-! The usage of the program. -/
namespace ViewHierarchy.CommandLine

def program : String := "swiftui-tree"

def usage : String :=
  "usage: swiftui-tree [-h] [--root ROOT] [--dump] [--format \x7boutline,json\x7d]\n" ++
  "                    [--config CONFIG] [-v]\n" ++
  "                    [file]\n"

def help : String :=
  usage ++
  "\n" ++
  "Show the view hierarchy of SwiftUI source without compiling it.\n" ++
  "\n" ++
  "positional arguments:\n" ++
  "  file                  Swift source file to open\n" ++
  "\n" ++
  "options:\n" ++
  "  -h, --help            show this help message and exit\n" ++
  "  --root ROOT           view to use as the tree root (default: best candidate)\n" ++
  "  --dump                print the tree instead of opening the window\n" ++
  "  --format \x7boutline,json\x7d\n" ++
  "                        output format for --dump\n" ++
  "  --config CONFIG       YAML file with parser settings\n" ++
  "  -v, --verbose         enable debug logging\n"

end ViewHierarchy.CommandLine
