/-!
# Help

The text that is shown if no command is given.
-/

namespace CatalogAudit
namespace CommandLine

def helpLines : List String :=
  ["A fast CLI tool for finding unused and untranslated i18n catalog keys",
    "",
    "Usage: i18n-validator [COMMAND]",
    "",
    "Commands:",
    "  unused        Find catalog keys never referenced in source files",
    "  untranslated  Find keys missing from, or identical to the base value in, other locales",
    "  init          Initialize a new .i18nrc.json configuration file",
    "  help          Print this message or the help of the given subcommand(s)",
    "",
    "Options:",
    "  -h, --help     Print help",
    "  -V, --version  Print version"]

def helpText : String :=
  String.join (helpLines.map (· ++ "\n"))

end CommandLine
end CatalogAudit
