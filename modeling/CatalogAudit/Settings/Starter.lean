import CatalogAudit.Settings.Project

/-!
# A first settings file

A project starts with a file that spells out the default settings. A file that is there already is
never replaced.
-/

namespace CatalogAudit
namespace Settings

def starterPath : Path :=
  Path.join [Path.dot] fileName

def writeStarter (disk : FileTree.Disk) : Except Fault FileTree.Disk :=
  if disk.exists? starterPath then .error (.of (.settingsExist fileName.shown))
  else
    withContext .file (.writeSettings starterPath)
      (disk.write starterPath (bytesOf (default.text ++ "\n")))

end Settings
end CatalogAudit
