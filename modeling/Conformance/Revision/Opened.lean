import Conformance.Corpus.Directory
import Conformance.Corpus.Index
import Conformance.Revision.Cache

namespace Conformance.Revision

variable (fetcher : Fetcher) (revision : Revision)

def ensure (cache : Cache) (reader : Zip.Reader := Zip.Archive.ofBytes) :
    Cache × Except Error String :=
  let (cache, result) := Cache.complete fetcher reader revision .archive cache .asked
  (cache, result.map fun _ => revision.archivePath)

def indexAt (host : Host) (reader : Zip.Reader := Zip.Archive.ofBytes) : Except Error Index := do
  let index ← Index.ofFile host revision.archivePath revision.rootName reader
  return { index with label := s!"test262@{revision.name} ({revision.archivePath})" }

def openArchive (cache : Cache) (reader : Zip.Reader := Zip.Archive.ofBytes) :
    Cache × Except Error Index :=
  match revision.ensure fetcher cache reader with
  | (cache, .error error) => (cache, .error error)
  | (cache, .ok _) => (cache, revision.indexAt cache.host reader)

def openTree (cache : Cache) (reader : Zip.Reader := Zip.Archive.ofBytes) :
    Cache × Except Error Directory :=
  match Cache.complete fetcher reader revision .tree cache .asked with
  | (cache, .error error) => (cache, .error error)
  | (cache, .ok _) => (cache, Directory.ofPath cache.host revision.treePath)

def openCorpus (cache : Cache) (reader : Zip.Reader := Zip.Archive.ofBytes) :
    Cache × Except Error Corpus :=
  if revision.extract then
    let (cache, directory) := revision.openTree fetcher cache reader
    (cache, directory.map Directory.toCorpus)
  else
    let (cache, index) := revision.openArchive fetcher cache reader
    (cache, index.map Index.toCorpus)

end Conformance.Revision
